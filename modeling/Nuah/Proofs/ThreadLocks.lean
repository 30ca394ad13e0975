import Nuah.ThreadAwareLocks

/-!
# The lock table holds what was granted

The two maps of the lock table are read as one count: how many locks of a kind a thread
holds on an account. The table is exact for the grants that are outstanding.
-/

namespace Nuah.Proofs

open List hiding contains any isEmpty
open OrderedMaps ThreadAwareAccountLocks ThreadSet Option

variable {w : Bool} {h' : LockCounts}
  {step : ThreadAwareAccountLocks → Pubkey → Option ThreadAwareAccountLocks}
  {keys writes reads : List Pubkey}

variable {n : Nat} {l : ThreadAwareAccountLocks} {grants : List LockGrant} {s : ThreadSet}

/-! ## Thread sets -/

section ThreadSets

variable {s' : ThreadSet} {t u : ThreadId}

lemma contains_eq (s : ThreadSet) (t : ThreadId) : s.contains t = s.bits.getLsbD t := by
  rw [contains, asFlag, ← BitVec.twoPow_eq, BitVec.and_twoPow]
  cases h : s.bits.getLsbD t
  · rfl
  · have hne : BitVec.twoPow maxThreads t ≠ .ofNat maxThreads 0 := by
      intro heq
      have hbit := congrArg (BitVec.getLsbD · t) heq
      simp [t.isLt] at hbit
    simpa using hne

lemma ThreadSet.ext_contains (h : ∀ t, s.contains t = s'.contains t) : s = s' := by
  obtain ⟨b⟩ := s
  obtain ⟨b'⟩ := s'
  congr 1
  refine BitVec.eq_of_getLsbD_eq fun i hi => ?_
  simpa only [contains_eq] using h ⟨i, hi⟩

lemma asFlag_bit (t u : ThreadId) : (asFlag t).getLsbD u = decide (u = t) := by
  rw [asFlag, ← BitVec.twoPow_eq, BitVec.getLsbD_twoPow]
  simp [t.isLt, Fin.ext_iff, eq_comm]

@[simp] lemma contains_only : (only t).contains u = decide (u = t) := by
  rw [contains_eq]
  exact asFlag_bit t u

@[simp] lemma contains_none : ThreadSet.none.contains t = false := by
  rw [contains_eq]
  exact BitVec.getLsbD_zero

@[simp] lemma contains_bitand : (s.bitand s').contains t = (s.contains t && s'.contains t) := by
  simp only [contains_eq, bitand, BitVec.getLsbD_and]

@[simp] lemma contains_insert : (s.insert t).contains u = (s.contains u || decide (u = t)) := by
  simp only [contains_eq, ThreadSet.insert, BitVec.getLsbD_or, asFlag_bit]

@[simp] lemma contains_remove : (s.remove t).contains u = (s.contains u && decide (u ≠ t)) := by
  simp only [contains_eq, remove, BitVec.getLsbD_and, BitVec.getLsbD_not, asFlag_bit,
    u.isLt, decide_true, Bool.true_and, decide_not]

lemma contains_any (hn : n ≤ maxThreads) : (any n).contains t = decide (t.val < n) := by
  have hbits : ∀ n : Fin 64, ∀ t : Fin 64,
      (asFlag n - .ofNat maxThreads 1).getLsbD t = decide (t.val < n.val) := by decide +kernel
  rw [contains_eq, any]
  split
  case isTrue h => simp [h, t.isLt]
  case isFalse h => exact hbits ⟨n, lt_of_le_of_ne hn h⟩ t

lemma isEmpty_iff : s.isEmpty = true ↔ ∀ t, s.contains t = false := by
  rw [isEmpty, beq_iff_eq]
  constructor
  · rintro rfl t
    exact contains_none
  · exact fun h => ThreadSet.ext_contains fun t => (h t).trans contains_none.symm

lemma onlyOneContained_eq_some : s.onlyOneContained = some t ↔ s = .only t := by
  have hmem : ∀ u, u ∈ s.containedThreads ↔ s.contains u = true := by
    intro u
    rw [containedThreads, mem_filter]
    exact and_iff_right (mem_finRange u)
  constructor
  · intro h
    unfold onlyOneContained at h
    split at h
    case isFalse => exact absurd h nofun
    case isTrue hlen =>
      obtain ⟨v, hv⟩ := length_eq_one_iff.1 hlen
      rw [hv, head?_cons, Option.some.injEq] at h
      subst h
      refine ThreadSet.ext_contains fun u => ?_
      rw [contains_only, Bool.eq_iff_iff, ← hmem, hv, mem_singleton, decide_eq_true_iff]
  · rintro rfl
    have hsingle : (ThreadSet.only t).containedThreads = [t] := by
      refine perm_singleton.1 ((perm_ext_iff_of_nodup
        ((nodup_finRange _).filter _) (nodup_singleton t)).2 fun u => ?_)
      exact (hmem u).trans (by rw [contains_only, decide_eq_true_iff, mem_singleton])
    rw [ThreadSet.onlyOneContained, ThreadSet.numThreads, hsingle]
    rfl

end ThreadSets

/-! ## The locks as counts -/

/-- How many locks a thread holds on an account, write locks (`true`) and read locks. -/
abbrev LockCounts := Bool → Pubkey → ThreadId → Nat

/-- No other thread holds a lock on the account that excludes one of this kind. -/
def Free (h : LockCounts) (write : Bool) (k : Pubkey) (t : ThreadId) : Prop :=
  ∀ u, u ≠ t → h true k u = 0 ∧ (write = true → h false k u = 0)

/-- Of an account with a write lock all locks belong to one thread. -/
def Exclusive (h : LockCounts) : Prop := ∀ k t, 0 < h true k t → Free h true k t

def addLocks (h : LockCounts) (write : Bool) (keys : List Pubkey) (t : ThreadId) : LockCounts :=
  fun w k u => h w k u + if w = write ∧ u = t then keys.count k else 0

def WriteEntry (f : ThreadId → Nat) : Option AccountWriteLocks → Prop
  | none => ∀ t, f t = 0
  | some w => 0 < w.lockCount ∧ ∀ t, f t = if t = w.threadId then w.lockCount else 0

def ReadEntry (f : ThreadId → Nat) : Option AccountReadLocks → Prop
  | none => ∀ t, f t = 0
  | some r => (∃ t, 0 < f t) ∧ r.lockCounts = f ∧ ∀ t, r.threadSet.contains t = decide (0 < f t)

structure Represents (l : ThreadAwareAccountLocks) (h : LockCounts) : Prop where
  write : ∀ k, WriteEntry (h true k) l.writeLocks[k]?
  read : ∀ k, ReadEntry (h false k) l.readLocks[k]?

/-- The call succeeds and leaves a table of as many threads with these locks. -/
def LeavesLocks (call : Option ThreadAwareAccountLocks) (l : ThreadAwareAccountLocks) (h : LockCounts) :
    Prop :=
  ∃ l', call = some l' ∧ Represents l' h ∧ l'.numThreads = l.numThreads

section Steps

variable {h : LockCounts} {write : Bool} {k : Pubkey} {t : ThreadId}

lemma addLocks_of_ne {a : Pubkey} (hne : (w, a) ≠ (write, k)) :
    addLocks h write [k] t w a = h w a := by
  funext u
  simp only [addLocks, Nat.add_eq_left, ite_eq_right_iff]
  rintro ⟨rfl, rfl⟩
  have hka : k ≠ a := fun heq => hne (by rw [heq])
  simp [hka]

lemma addLocks_self (u : ThreadId) :
    addLocks h write [k] t write k u = h write k u + if u = t then 1 else 0 := by
  simp [addLocks]

lemma addLocks_nil : addLocks h write [] t = h := by
  funext w a u
  simp [addLocks]

lemma addLocks_cons (keys : List Pubkey) :
    addLocks (addLocks h write [k] t) write keys t = addLocks h write (k :: keys) t := by
  funext w a u
  simp only [addLocks, count_cons, count_nil]
  split <;> omega

lemma Free.addLocks (hfree : Free h write k t) (keys : List Pubkey) :
    Free (addLocks h w keys t) write k t := by
  intro u hu
  simpa [Proofs.addLocks, hu] using hfree u hu

section

variable (hrep : Represents l h)

include hrep

/-- The entry of one account in the map of the write locks changes. -/
lemma Represents.of_write {m : Std.TreeMap Pubkey AccountWriteLocks}
    {e : Option AccountWriteLocks} (hm : ∀ a, m[a]? = if a = k then e else l.writeLocks[a]?)
    (he : WriteEntry (h' true k) e) (hsame : ∀ w a, (w, a) ≠ (true, k) → h' w a = h w a) :
    Represents { l with writeLocks := m } h' := by
  refine ⟨fun a => ?_, fun a => ?_⟩
  · change WriteEntry _ m[a]?
    rw [hm]
    split
    case isTrue ha => rw [ha]; exact he
    case isFalse ha => rw [hsame true a (by simp [ha])]; exact hrep.write a
  · rw [hsame false a (by simp)]
    exact hrep.read a

lemma Represents.of_read {m : Std.TreeMap Pubkey AccountReadLocks}
    {e : Option AccountReadLocks} (hm : ∀ a, m[a]? = if a = k then e else l.readLocks[a]?)
    (he : ReadEntry (h' false k) e) (hsame : ∀ w a, (w, a) ≠ (false, k) → h' w a = h w a) :
    Represents { l with readLocks := m } h' := by
  refine ⟨fun a => ?_, fun a => ?_⟩
  · rw [hsame true a (by simp)]
    exact hrep.write a
  · change ReadEntry _ m[a]?
    rw [hm]
    split
    case isTrue ha => rw [ha]; exact he
    case isFalse ha => rw [hsame false a (by simp [ha])]; exact hrep.read a

lemma readLocks_only (hfree : Free h true k t) :
    l.readLocks[k]?.all (fun r => decide (r.threadSet = .only t)) = true := by
  have hread := hrep.read k
  rcases hget : l.readLocks[k]? with _ | r <;> rw [hget] at hread
  · rfl
  · obtain ⟨⟨u, hu⟩, -, hset⟩ := hread
    have hut : u = t := by
      by_contra hne
      have := (hfree u hne).2 rfl
      omega
    simp only [all_some, decide_eq_true_eq]
    refine ThreadSet.ext_contains fun v => ?_
    rw [hset, contains_only]
    by_cases hv : v = t
    · simp [hv, ← hut, hu]
    · simp [hv, (hfree v hv).2 rfl]

lemma writeLocks_same (hfree : Free h write k t) :
    l.writeLocks[k]?.all (fun w => decide (w.threadId = t)) = true := by
  have hwrite := hrep.write k
  rcases hget : l.writeLocks[k]? with _ | w <;> rw [hget] at hwrite
  · rfl
  · obtain ⟨hpos, hcount⟩ := hwrite
    simp only [all_some, decide_eq_true_eq]
    by_contra hne
    have h0 := (hfree _ hne).1
    rw [hcount, if_pos rfl] at h0
    omega

lemma writeLockAccount_step (hfree : Free h true k t) (hfits : h true k t < u32Max) :
    LeavesLocks (l.writeLockAccount t k) l (addLocks h true [k] t) := by
  have hsame := writeLocks_same hrep hfree
  have hwrite := hrep.write k
  unfold writeLockAccount
  rw [readLocks_only hrep hfree]
  rcases hget : l.writeLocks[k]? with _ | w
  · rw [hget] at hwrite
    refine ⟨_, rfl, hrep.of_write (fun a => getElem?_insert_eq _ _ _ _) ⟨Nat.one_pos, fun u => ?_⟩
      fun w a hne => addLocks_of_ne hne, rfl⟩
    rw [addLocks_self, hwrite u, Nat.zero_add]
  · rw [hget] at hwrite hsame
    obtain ⟨hpos, hcount⟩ := hwrite
    have hw : w.threadId = t := by simpa using hsame
    have hlt : w.lockCount < u32Max := by
      rw [hcount, if_pos hw.symm] at hfits
      exact hfits
    simp only [hw, if_true, incrementLockCount, hlt, map_some]
    refine ⟨_, rfl, hrep.of_write (fun a => getElem?_insert_eq _ _ _ _)
      ⟨Nat.succ_pos _, fun u => ?_⟩ fun w a hne => addLocks_of_ne hne, rfl⟩
    rw [addLocks_self, hcount, hw]
    split <;> rfl

lemma readLockAccount_step (hfree : Free h false k t) (hfits : h false k t < u32Max) :
    LeavesLocks (l.readLockAccount t k) l (addLocks h false [k] t) := by
  have hread := hrep.read k
  have hpos : 0 < addLocks h false [k] t false k t := by
    rw [addLocks_self, if_pos rfl]
    exact Nat.succ_pos _
  unfold readLockAccount
  rw [writeLocks_same hrep hfree]
  rcases hget : l.readLocks[k]? with _ | r <;> rw [hget] at hread
  · refine ⟨_, rfl, hrep.of_read (fun a => getElem?_insert_eq _ _ _ _)
      ⟨⟨t, hpos⟩, ?_, fun u => ?_⟩ fun w a hne => addLocks_of_ne hne, rfl⟩
    · funext u
      rw [addLocks_self, hread u, Nat.zero_add]
      exact Function.update_apply (0 : ThreadId → Nat) t 1 u
    · rw [addLocks_self, hread u, contains_only]
      by_cases hu : u = t <;> simp [hu]
  · obtain ⟨-, hcounts, hset⟩ := hread
    simp only [hcounts, incrementLockCount, hfits, if_true, map_some]
    refine ⟨_, rfl, hrep.of_read (fun a => getElem?_insert_eq _ _ _ _)
      ⟨⟨t, hpos⟩, ?_, fun u => ?_⟩ fun w a hne => addLocks_of_ne hne, rfl⟩
    · funext u
      rw [addLocks_self]
      refine (Function.update_apply _ t _ u).trans ?_
      split
      case isTrue hu => rw [hu]
      case isFalse => rfl
    · rw [addLocks_self, contains_insert, hset]
      by_cases hu : u = t <;> simp [hu]

end

lemma writeUnlockAccount_step (hrep : Represents l (addLocks h true [k] t)) :
    LeavesLocks (l.writeUnlockAccount t k) l h := by
  have hback : ∀ w a, (w, a) ≠ (true, k) → h w a = addLocks h true [k] t w a :=
    fun w a hne => (addLocks_of_ne hne).symm
  have hwrite := hrep.write k
  rcases hget : l.writeLocks[k]? with _ | w <;> rw [hget] at hwrite
  · have h0 := hwrite t
    rw [addLocks_self, if_pos rfl] at h0
    omega
  · obtain ⟨hpos, hcount⟩ := hwrite
    have hw : w.threadId = t := by
      by_contra hne
      have h0 := hcount t
      rw [addLocks_self, if_pos rfl, if_neg (Ne.symm hne)] at h0
      omega
    have hrest : ∀ u, h true k u = if u = t then w.lockCount - 1 else 0 := by
      intro u
      have hu := hcount u
      rw [addLocks_self, hw] at hu
      split at hu <;> simp_all; omega
    simp only [writeUnlockAccount, hget, bind_eq_bind, bind_some, hw,
      checkedSub, Nat.one_le_iff_ne_zero.2 (Nat.ne_of_gt hpos), if_true]
    refine ⟨_, rfl, ?_, rfl⟩
    by_cases hzero : w.lockCount - 1 = 0
    · rw [if_pos hzero]
      refine hrep.of_write (fun a => getElem?_erase_eq _ _ _) (fun u => ?_) hback
      rw [hrest, hzero, ite_self]
    · rw [if_neg hzero]
      exact hrep.of_write (fun a => getElem?_insert_eq _ _ _ _)
        ⟨Nat.pos_of_ne_zero hzero, hrest⟩ hback

lemma readUnlockAccount_step (hrep : Represents l (addLocks h false [k] t)) :
    LeavesLocks (l.readUnlockAccount t k) l h := by
  have hback : ∀ w a, (w, a) ≠ (false, k) → h w a = addLocks h false [k] t w a :=
    fun w a hne => (addLocks_of_ne hne).symm
  have hself : ∀ u, addLocks h false [k] t false k u = h false k u + if u = t then 1 else 0 :=
    addLocks_self
  have hread := hrep.read k
  rcases hget : l.readLocks[k]? with _ | r <;> rw [hget] at hread
  · have h0 := hread t
    rw [hself, if_pos rfl] at h0
    omega
  · obtain ⟨-, hcounts, hset⟩ := hread
    have hcount : r.lockCounts t = h false k t + 1 := by rw [hcounts, hself, if_pos rfl]
    have hupdate : Function.update r.lockCounts t (h false k t) = h false k := by
      funext u
      rw [Function.update_apply, hcounts, hself]
      split
      case isTrue hu => rw [hu]
      case isFalse => rfl
    simp only [readUnlockAccount, hget, bind_eq_bind, bind_some, hset, hself, if_true,
      Nat.succ_pos, decide_true, hcount, checkedSub, Nat.le_add_left,
      Nat.add_sub_cancel, hupdate]
    refine ⟨_, rfl, ?_, rfl⟩
    generalize hs : (if h false k t = 0 then r.threadSet.remove t else r.threadSet) = set
    have hset' : ∀ u, set.contains u = decide (0 < h false k u) := by
      intro u
      subst hs
      have hu := hset u
      rw [hself] at hu
      split <;> by_cases hut : u = t <;> simp_all; omega
    split
    case isTrue hempty =>
      refine hrep.of_read (fun a => getElem?_erase_eq _ _ _) (fun u => ?_) hback
      have hu := isEmpty_iff.1 hempty.2 u
      rw [hset'] at hu
      simpa using hu
    case isFalse hsome =>
      refine hrep.of_read (fun a => getElem?_insert_eq _ _ _ _) ⟨?_, rfl, hset'⟩ hback
      by_contra hall
      have hnone : ∀ u, ¬ 0 < h false k u := not_exists.1 hall
      refine hsome ⟨by have := hnone t; omega, isEmpty_iff.2 fun u => ?_⟩
      rw [hset', decide_eq_false (hnone u)]

/-! ## Whole requests -/

lemma foldlM_lock (keys : List Pubkey)
    (hstep : ∀ {l h k}, Represents l h → Free h write k t → h write k t < u32Max →
      LeavesLocks (step l k) l (addLocks h write [k] t))
    (hrep : Represents l h) (hfree : ∀ k ∈ keys, Free h write k t)
    (hfits : ∀ k, h write k t + keys.count k ≤ u32Max) :
    LeavesLocks (keys.foldlM step l) l (addLocks h write keys t) := by
  induction keys generalizing l h with
  | nil => exact ⟨l, rfl, addLocks_nil ▸ hrep, rfl⟩
  | cons k keys ih =>
    obtain ⟨hk, hkeys⟩ := forall_mem_cons.1 hfree
    have hlt : h write k t < u32Max := by
      have := hfits k
      rw [count_cons_self] at this
      omega
    obtain ⟨l₁, hl₁, hrep₁, hn₁⟩ := hstep hrep hk hlt
    obtain ⟨l', hl', hrep', hn'⟩ := ih hrep₁ (fun a ha => (hkeys a ha).addLocks [k]) fun a => by
      have := hfits a
      simp only [addLocks, count_cons, count_nil, and_self, if_true] at this ⊢
      omega
    refine ⟨l', ?_, addLocks_cons keys ▸ hrep', hn'.trans hn₁⟩
    rw [foldlM_cons, hl₁]
    exact hl'

lemma foldlM_unlock
    (hstep : ∀ {l h k}, Represents l (addLocks h write [k] t) → LeavesLocks (step l k) l h)
    (hrep : Represents l (addLocks h write keys t)) :
    LeavesLocks (keys.foldlM step l) l h := by
  induction keys generalizing l with
  | nil => exact ⟨l, rfl, addLocks_nil (h := h) ▸ hrep, rfl⟩
  | cons k keys ih =>
    have hswap : addLocks h write (k :: keys) t =
        addLocks (addLocks h write keys t) write [k] t := by
      funext w a u
      simp only [addLocks, count_cons, count_nil]
      split <;> omega
    obtain ⟨l₁, hl₁, hrep₁, hn₁⟩ := hstep (hswap ▸ hrep)
    obtain ⟨l', hl', hrep', hn'⟩ := ih hrep₁
    refine ⟨l', ?_, hrep', hn'.trans hn₁⟩
    rw [foldlM_cons, hl₁]
    exact hl'

def addRequest (h : LockCounts) (writes reads : List Pubkey) (t : ThreadId) : LockCounts :=
  addLocks (addLocks h true writes t) false reads t

lemma addRequest_apply (writes reads : List Pubkey) (w : Bool) (u : ThreadId) :
    addRequest h writes reads t w k u =
      h w k u + if u = t then (if w then writes else reads).count k else 0 := by
  cases w <;> simp [addRequest, addLocks]

lemma lockAccounts_step (hrep : Represents l h) (ht : t.val < l.numThreads)
    (hwrites : ∀ k ∈ writes, Free h true k t) (hreads : ∀ k ∈ reads, Free h false k t)
    (hfits : ∀ w k, addRequest h writes reads t w k t ≤ u32Max) :
    LeavesLocks (l.lockAccounts writes reads t) l (addRequest h writes reads t) := by
  obtain ⟨l₁, hl₁, hrep₁, hn₁⟩ := foldlM_lock writes writeLockAccount_step hrep hwrites
    fun k => by simpa [addRequest_apply] using hfits true k
  obtain ⟨l', hl', hrep', hn'⟩ := foldlM_lock reads readLockAccount_step hrep₁
    (fun k hk => (hreads k hk).addLocks writes)
    fun k => by simpa [addRequest_apply, addLocks] using hfits false k
  refine ⟨l', ?_, hrep', hn'.trans hn₁⟩
  simp [lockAccounts, ht, hl₁, hl']

lemma unlockAccounts_step (hrep : Represents l (addRequest h writes reads t)) :
    LeavesLocks (l.unlockAccounts writes reads t) l h := by
  have hswap : addRequest h writes reads t = addLocks (addLocks h false reads t) true writes t := by
    funext w k u
    cases w <;> simp [addRequest, addLocks]
  obtain ⟨l₁, hl₁, hrep₁, hn₁⟩ := foldlM_unlock writeUnlockAccount_step (hswap ▸ hrep)
  obtain ⟨l', hl', hrep', hn'⟩ := foldlM_unlock readUnlockAccount_step hrep₁
  refine ⟨l', ?_, hrep', hn'.trans hn₁⟩
  simp [unlockAccounts, hl₁, hl']

lemma exclusive_addRequest_iff (hexcl : Exclusive h) :
    Exclusive (addRequest h writes reads t) ↔
      (∀ k ∈ writes, Free h true k t) ∧ ∀ k ∈ reads, Free h false k t := by
  have hother : ∀ {w a u}, u ≠ t → addRequest h writes reads t w a u = h w a u := by
    intro w a u hu
    rw [addRequest_apply, if_neg hu, Nat.add_zero]
  have hpos : ∀ {w a}, a ∈ (if w = true then writes else reads) →
      0 < addRequest h writes reads t w a t := by
    intro w a ha
    rw [addRequest_apply, if_pos rfl]
    exact Nat.add_pos_right _ (count_pos_iff.2 ha)
  constructor
  · intro hnew
    refine ⟨fun k hk u hu => ?_, fun k hk u hu => ⟨?_, nofun⟩⟩
    · have hfree := hnew k t (hpos (w := true) hk) u hu
      rwa [hother hu, hother hu] at hfree
    · by_contra hne
      have hfree := (hnew k u (by rw [hother hu]; omega) t hu.symm).2 rfl
      exact (hpos (w := false) hk).ne' hfree
  · rintro ⟨hwrites, hreads⟩ k u hu v hv
    by_cases hut : u = t
    · subst hut
      rw [hother hv, hother hv]
      by_cases hk : k ∈ writes
      · exact hwrites k hk v hv
      · rw [addRequest_apply, if_pos rfl, if_pos rfl, count_eq_zero_of_not_mem hk] at hu
        exact hexcl k u hu v hv
    · rw [hother hut] at hu
      by_cases hvt : v = t
      · subst hvt
        have hw : k ∉ writes := fun hk => hu.ne' (hwrites k hk u hut).1
        have hr : k ∉ reads := fun hk => hu.ne' (hreads k hk u hut).1
        simpa [addRequest_apply, count_eq_zero_of_not_mem hw,
          count_eq_zero_of_not_mem hr] using hexcl k u hu v hv
      · rw [hother hvt, hother hvt]
        exact hexcl k u hu v hv

/-! ## Threads that can take a request -/

lemma schedulableThreads_spec (hrep : Represents l h) (hexcl : Exclusive h)
    (hthreads : ∀ w k t, 0 < h w k t → t.val < l.numThreads) (write : Bool) (k : Pubkey) :
    ∃ s, l.schedulableThreads write k = some s ∧
      ∀ t, s.contains t = true ↔ t.val < l.numThreads ∧ Free h write k t := by
  have hwrite := hrep.write k
  have hread := hrep.read k
  unfold schedulableThreads
  rcases hw : l.writeLocks[k]? with _ | w <;> rcases hr : l.readLocks[k]? with _ | r <;>
    rw [hw] at hwrite <;> rw [hr] at hread
  · refine ⟨_, rfl, fun t => ?_⟩
    rw [contains_any l.numThreads_le, decide_eq_true_iff]
    exact (and_iff_left fun u _ => ⟨hwrite u, fun _ => hread u⟩).symm
  · obtain ⟨⟨v, hv⟩, -, hset⟩ := hread
    cases write with
    | false =>
      refine ⟨_, rfl, fun t => ?_⟩
      rw [contains_any l.numThreads_le, decide_eq_true_iff]
      exact (and_iff_left fun u _ => ⟨hwrite u, nofun⟩).symm
    | true =>
      refine ⟨_, rfl, fun t => ?_⟩
      have honly : Free h true k t ↔ r.threadSet = .only t := by
        constructor
        · intro hfree
          have := readLocks_only hrep hfree
          rwa [hr, all_some, decide_eq_true_iff] at this
        · intro heq u hu
          refine ⟨hwrite u, fun _ => ?_⟩
          have hu' := hset u
          rw [heq, contains_only, decide_eq_false hu] at hu'
          simpa using hu'
      rw [honly, ← onlyOneContained_eq_some]
      rcases hone : r.threadSet.onlyOneContained with _ | u
      · simp
      · have hlt : u.val < l.numThreads := by
          refine hthreads false k u ?_
          have hu := hset u
          rw [onlyOneContained_eq_some.1 hone, contains_only] at hu
          simpa using hu
        rw [elim_some, contains_only, decide_eq_true_iff, Option.some.injEq]
        exact ⟨fun heq => ⟨heq ▸ hlt, heq.symm⟩, fun heq => heq.2.symm⟩
  all_goals
    have hheld : 0 < h true k w.threadId := by
      rw [hwrite.2, if_pos rfl]
      exact hwrite.1
    have hfree : Free h true k w.threadId := hexcl k w.threadId hheld
    have hiff : ∀ t, (only w.threadId).contains t = true ↔
        t.val < l.numThreads ∧ Free h write k t := by
      intro t
      rw [contains_only, decide_eq_true_iff]
      constructor
      · rintro rfl
        exact ⟨hthreads true k _ hheld, fun u hu => ⟨(hfree u hu).1, fun _ => (hfree u hu).2 rfl⟩⟩
      · rintro ⟨-, hfree'⟩
        by_contra hne
        exact hheld.ne' (hfree' _ (Ne.symm hne)).1
  · exact ⟨_, rfl, hiff⟩
  · have hset : r.threadSet = .only w.threadId := by
      have := readLocks_only hrep hfree
      rwa [hr, all_some, decide_eq_true_iff] at this
    dsimp only
    rw [hset, if_pos (onlyOneContained_eq_some.2 rfl)]
    exact ⟨_, rfl, hiff⟩

/-- The early end of a loop is no loss: an empty set stays empty. -/
lemma narrowThreads_spec (keys : List Pubkey) {threads : Pubkey → Option ThreadSet}
    {P : Pubkey → ThreadId → Prop}
    (hthreads : ∀ k ∈ keys, ∃ s, threads k = some s ∧ ∀ t, s.contains t = true ↔ P k t)
    (s : ThreadSet) :
    ∃ o, narrowThreads threads keys s = some o ∧ ∀ t, o.any (·.contains t) = true ↔
      s.contains t = true ∧ ∀ k ∈ keys, P k t := by
  induction keys generalizing s with
  | nil => exact ⟨_, rfl, by simp⟩
  | cons k keys ih =>
    obtain ⟨⟨s', hs', hmem⟩, hkeys⟩ := forall_mem_cons.1 hthreads
    have hboth : ∀ t, (s.bitand s').contains t = true ↔ s.contains t = true ∧ P k t := by
      intro t
      rw [contains_bitand, Bool.and_eq_true, hmem]
    simp only [narrowThreads, hs', bind_eq_bind, bind_some]
    split
    case isTrue hempty =>
      refine ⟨_, rfl, fun t => ?_⟩
      have hnot := isEmpty_iff.1 hempty t
      rw [← Bool.not_eq_true, hboth] at hnot
      rw [forall_mem_cons]
      simpa using fun hs hk => absurd ⟨hs, hk⟩ hnot
    case isFalse =>
      obtain ⟨o, ho, hany⟩ := ih hkeys (s.bitand s')
      refine ⟨o, ho, fun t => ?_⟩
      rw [hany, hboth, forall_mem_cons, and_assoc]

lemma accountsSchedulableThreads_spec (hrep : Represents l h) (hexcl : Exclusive h)
    (hthreads : ∀ w k t, 0 < h w k t → t.val < l.numThreads) (writes reads : List Pubkey) :
    ∃ o, l.accountsSchedulableThreads writes reads = some o ∧ ∀ t, o.any (·.contains t) = true ↔
      t.val < l.numThreads ∧ Exclusive (addRequest h writes reads t) := by
  obtain ⟨o, ho, hany⟩ := narrowThreads_spec writes
    (fun k _ => schedulableThreads_spec hrep hexcl hthreads true k) (.any l.numThreads)
  simp only [accountsSchedulableThreads, ho, bind_eq_bind, bind_some]
  have hwrites : ∀ t, o.any (·.contains t) = true ↔
      t.val < l.numThreads ∧ ∀ k ∈ writes, Free h true k t := by
    intro t
    rw [hany, contains_any l.numThreads_le, decide_eq_true_iff]
    exact and_congr_right fun ht => forall₂_congr fun k _ => and_iff_right ht
  cases o with
  | none =>
    refine ⟨none, rfl, fun t => ?_⟩
    have hnone := hwrites t
    rw [exclusive_addRequest_iff hexcl, ← and_assoc, ← hnone]
    exact (iff_self_and.2 nofun)
  | some s =>
    obtain ⟨o, ho, hany⟩ := narrowThreads_spec reads
      (fun k _ => schedulableThreads_spec hrep hexcl hthreads false k) s
    refine ⟨o, ho, fun t => ?_⟩
    have hs := hwrites t
    rw [any_some] at hs
    rw [hany, hs, exclusive_addRequest_iff hexcl, and_assoc]
    exact and_congr_right fun ht => and_congr_right fun _ =>
      forall₂_congr fun k _ => and_iff_right ht

lemma tryLockAccounts_spec (allowed : ThreadSet) {selector : ThreadSet → ThreadId}
    (hrep : Represents l h) (hexcl : Exclusive h)
    (hthreads : ∀ w k t, 0 < h w k t → t.val < l.numThreads)
    (hselector : ∀ s : ThreadSet, s.isEmpty = false → s.contains (selector s) = true)
    (hfits : ∀ t w k, addRequest h writes reads t w k t ≤ u32Max) :
    (l.tryLockAccounts writes reads allowed selector = some (none, l) ∧
      ∀ t, allowed.contains t = true → t.val < l.numThreads →
        ¬ Exclusive (addRequest h writes reads t)) ∨
    ∃ t l', l.tryLockAccounts writes reads allowed selector = some (some t, l') ∧
      allowed.contains t = true ∧ t.val < l.numThreads ∧
      Exclusive (addRequest h writes reads t) ∧ Represents l' (addRequest h writes reads t) ∧
      l'.numThreads = l.numThreads := by
  obtain ⟨o, ho, hany⟩ := accountsSchedulableThreads_spec hrep hexcl hthreads writes reads
  simp only [tryLockAccounts, ho, bind_eq_bind, bind_some]
  cases o with
  | none => exact .inl ⟨rfl, fun t _ ht hnew => absurd ((hany t).2 ⟨ht, hnew⟩) nofun⟩
  | some s =>
    have hboth : ∀ t, (s.bitand allowed).contains t = true ↔ (t.val < l.numThreads ∧
        Exclusive (addRequest h writes reads t)) ∧ allowed.contains t = true := by
      intro t
      rw [contains_bitand, Bool.and_eq_true, ← hany t, any_some]
    by_cases hempty : (s.bitand allowed).isEmpty = true
    · refine .inl ⟨by simp [hempty], fun t hallowed ht hnew => ?_⟩
      have hnot := isEmpty_iff.1 hempty t
      rw [(hboth t).2 ⟨⟨ht, hnew⟩, hallowed⟩] at hnot
      exact absurd hnot nofun
    · obtain ⟨⟨ht, hnew⟩, hallowed⟩ := (hboth _).1 (hselector _ (Bool.eq_false_iff.2 hempty))
      obtain ⟨hwrites, hreads⟩ := (exclusive_addRequest_iff hexcl).1 hnew
      obtain ⟨l', hl', hrep', hn'⟩ := lockAccounts_step hrep ht hwrites hreads (hfits _)
      exact .inr ⟨_, l', by simp [hempty, hl'], hallowed, ht, hnew, hrep', hn'⟩

end Steps

/-! ## Runs -/

structure LockGrant where
  writes : List Pubkey
  reads : List Pubkey
  thread : ThreadId

def heldBy (grants : List LockGrant) : LockCounts := fun w k t =>
  (grants.map fun g => if t = g.thread then (if w then g.writes else g.reads).count k else 0).sum

lemma heldBy_split (before after : List LockGrant) (g : LockGrant) :
    heldBy (before ++ g :: after) =
      addRequest (heldBy (before ++ after)) g.writes g.reads g.thread := by
  funext w k t
  rw [addRequest_apply]
  simp only [heldBy, map_append, map_cons, sum_append, sum_cons]
  omega

lemma heldBy_cons (writes reads : List Pubkey) (t : ThreadId) (grants : List LockGrant) :
    heldBy (⟨writes, reads, t⟩ :: grants) = addRequest (heldBy grants) writes reads t :=
  heldBy_split [] grants ⟨writes, reads, t⟩

/-- The lock tables that calls can lead to, with the grants that are outstanding. A grant never
brings the locks of a thread on one account above what a `u32` counts. -/
inductive LockRun (n : Nat) (hpos : 0 < n) (hle : n ≤ maxThreads) :
    ThreadAwareAccountLocks → List LockGrant → Prop
  | start : LockRun n hpos hle ⟨n, hpos, hle, ∅, ∅⟩ []
  | tryLock {l l' : ThreadAwareAccountLocks} {grants : List LockGrant} {writes reads : List Pubkey}
      {allowed : ThreadSet} {selector : ThreadSet → ThreadId} {o : Option ThreadId}
      (hrun : LockRun n hpos hle l grants)
      (hselector : ∀ s : ThreadSet, s.isEmpty = false → s.contains (selector s) = true)
      (hfits : ∀ t w k, heldBy (⟨writes, reads, t⟩ :: grants) w k t ≤ u32Max)
      (hcall : l.tryLockAccounts writes reads allowed selector = some (o, l')) :
      LockRun n hpos hle l' ((o.map (⟨writes, reads, ·⟩)).toList ++ grants)
  | unlock {l l' : ThreadAwareAccountLocks} {before after : List LockGrant} {g : LockGrant}
      (hrun : LockRun n hpos hle l (before ++ g :: after))
      (hcall : l.unlockAccounts g.writes g.reads g.thread = some l') :
      LockRun n hpos hle l' (before ++ after)

structure LocksExact (n : Nat) (l : ThreadAwareAccountLocks) (grants : List LockGrant) : Prop where
  numThreads : l.numThreads = n
  represents : Represents l (heldBy grants)
  exclusive : Exclusive (heldBy grants)
  threads : ∀ g ∈ grants, g.thread.val < n

lemma LocksExact.lt_of_held (hexact : LocksExact n l grants) (w : Bool) (k : Pubkey) (t : ThreadId)
    (hheld : 0 < heldBy grants w k t) : t.val < l.numThreads := by
  obtain ⟨m, hm, hpos⟩ := exists_mem_ne_zero_of_sum_ne_zero hheld.ne'
  obtain ⟨g, hg, rfl⟩ := mem_map.1 hm
  split at hpos
  case isTrue ht =>
    rw [ht, hexact.numThreads]
    exact hexact.threads g hg
  case isFalse => exact absurd rfl hpos

section Runs

variable {hpos : 0 < n} {hle : n ≤ maxThreads}

lemma LockRun.exact (hrun : LockRun n hpos hle l grants) : LocksExact n l grants := by
  induction hrun with
  | start =>
    exact ⟨rfl, ⟨fun k t => rfl, fun k t => rfl⟩, fun k t h => absurd h (by simp [heldBy]), nofun⟩
  | @tryLock l l' grants writes reads allowed selector o hrun hselector hfits hcall ih =>
    simp only [heldBy_cons] at hfits
    rcases tryLockAccounts_spec allowed ih.represents ih.exclusive ih.lt_of_held
      hselector hfits with ⟨heq, -⟩ | ⟨t, l₁, heq, -, ht, hexcl, hrep, hn⟩
    · cases heq.symm.trans hcall
      exact ih
    · cases heq.symm.trans hcall
      refine ⟨hn.trans ih.numThreads, heldBy_cons .. ▸ hrep, heldBy_cons .. ▸ hexcl, ?_⟩
      rintro g (_ | ⟨_, hg⟩)
      · exact ih.numThreads ▸ ht
      · exact ih.threads g hg
  | @unlock l l' before after g hrun hcall ih =>
    obtain ⟨hn, hrep, hexcl, hthreads⟩ := ih
    rw [heldBy_split] at hrep hexcl
    obtain ⟨l₁, heq, hrep', hn'⟩ := unlockAccounts_step hrep
    cases heq.symm.trans hcall
    refine ⟨hn'.trans hn, hrep', fun k t hheld u hu => ?_, fun g' hg' => hthreads g' ?_⟩
    · have hfree := hexcl k t (by rw [addRequest_apply]; omega) u hu
      rw [addRequest_apply, addRequest_apply] at hfree
      exact ⟨by omega, fun _ => by have := hfree.2 rfl; omega⟩
    · rw [mem_append] at hg'
      rw [mem_append, mem_cons]
      tauto

theorem threadAwareLocks_exact (hrun : LockRun n hpos hle l grants) :
    Represents l (heldBy grants) ∧ Exclusive (heldBy grants) ∧
    (∀ writes reads allowed selector,
      (∀ s : ThreadSet, s.isEmpty = false → s.contains (selector s) = true) →
      (∀ t w k, heldBy (⟨writes, reads, t⟩ :: grants) w k t ≤ u32Max) →
      ∃ o l', l.tryLockAccounts writes reads allowed selector = some (o, l') ∧
        (o = none ↔ ¬ ∃ t : ThreadId, allowed.contains t = true ∧ t.val < n ∧
          Exclusive (heldBy (⟨writes, reads, t⟩ :: grants)))) ∧
    (∀ g ∈ grants, ∃ l', l.unlockAccounts g.writes g.reads g.thread = some l') ∧
    (grants = [] → l.writeLocks.isEmpty = true ∧ l.readLocks.isEmpty = true) := by
  have hexact := hrun.exact
  refine ⟨hexact.represents, hexact.exclusive,
    fun writes reads allowed selector hselector hfits => ?_, fun g hg => ?_, ?_⟩
  · simp only [heldBy_cons] at hfits ⊢
    rcases tryLockAccounts_spec allowed hexact.represents hexact.exclusive
      hexact.lt_of_held hselector hfits with ⟨heq, hno⟩ | ⟨t, l', heq, hallowed, ht, hexcl, -⟩
    · rw [hexact.numThreads] at hno
      exact ⟨none, l, heq, iff_of_true rfl fun ⟨t, h1, h2, h3⟩ => hno t h1 h2 h3⟩
    · rw [hexact.numThreads] at ht
      exact ⟨some t, l', heq, iff_of_false nofun (not_not.2 ⟨t, hallowed, ht, hexcl⟩)⟩
  · obtain ⟨before, after, rfl⟩ := append_of_mem hg
    have hrep := hexact.represents
    rw [heldBy_split] at hrep
    obtain ⟨l', hl', -⟩ := unlockAccounts_step hrep
    exact ⟨l', hl'⟩
  · rintro rfl
    have hwrite : ∀ k : Pubkey, l.writeLocks[k]? = none := by
      intro k
      have hk := hexact.represents.write k
      rcases hget : l.writeLocks[k]? with _ | w
      · rfl
      · rw [hget] at hk
        have h0 := hk.2 w.threadId
        rw [if_pos rfl] at h0
        exact absurd h0 hk.1.ne
    have hread : ∀ k : Pubkey, l.readLocks[k]? = none := by
      intro k
      have hk := hexact.represents.read k
      rcases hget : l.readLocks[k]? with _ | r
      · rfl
      · rw [hget] at hk
        obtain ⟨⟨t, ht⟩, -⟩ := hk
        exact absurd ht (by simp [heldBy])
    simp only [Std.TreeMap.isEmpty_iff_forall_not_mem, Std.TreeMap.mem_iff_isSome_getElem?, hwrite,
      hread]
    simp

end Runs

/-! ## A grant, and one lock too many -/

def firstThread (s : ThreadSet) : ThreadId := s.containedThreads.headD ⟨0, by decide⟩

lemma contains_firstThread (h : s.isEmpty = false) : s.contains (firstThread s) = true := by
  have hne : s.containedThreads ≠ [] := by
    intro hnil
    refine Bool.eq_false_iff.1 h (isEmpty_iff.2 fun t => Bool.eq_false_iff.2 fun ht => ?_)
    exact filter_eq_nil_iff.1 hnil t (mem_finRange t) ht
  have hmem : firstThread s ∈ s.containedThreads := by
    rw [firstThread, headD_eq_head?_getD, head?_eq_some_head hne]
    exact head_mem hne
  exact (mem_filter.1 hmem).2

def fourThreads : ThreadAwareAccountLocks := ⟨4, by decide, by decide, ∅, ∅⟩

theorem threadAwareLocks_exact_grant :
    ∃ l t, LockRun 4 (by decide) (by decide) l [⟨[7], [7, 8], t⟩] ∧
      Represents l (heldBy [⟨[7], [7, 8], t⟩]) := by
  have hstart : LockRun 4 (by decide) (by decide) fourThreads [] := .start
  have hfits : ∀ t w k, heldBy [⟨[7], [7, 8], t⟩] w k t ≤ u32Max := by
    intro t w k
    have hcount : ∀ keys : List Pubkey, keys.length ≤ 2 → keys.count k ≤ u32Max :=
      fun keys hkeys => count_le_length.trans (hkeys.trans (by decide))
    cases w <;> simpa [heldBy] using hcount _ (by simp)
  obtain ⟨o, l, hcall, hnone⟩ := (threadAwareLocks_exact hstart).2.2.1 [7] [7, 8] (.any 4)
    firstThread (fun s => contains_firstThread) hfits
  have hrun := hstart.tryLock (fun s => contains_firstThread) hfits hcall
  cases o with
  | some t => exact ⟨l, t, hrun, (threadAwareLocks_exact hrun).1⟩
  | none =>
    have hfree : ∀ w k t, Free (heldBy []) w k t := fun w k t u _ => ⟨rfl, fun _ => rfl⟩
    have hexcl := (exclusive_addRequest_iff (threadAwareLocks_exact hstart).2.1).2
      ⟨fun k (_ : k ∈ [7]) => hfree true k ⟨0, by decide⟩,
        fun k (_ : k ∈ [7, 8]) => hfree false k ⟨0, by decide⟩⟩
    rw [← heldBy_cons] at hexcl
    exact absurd ⟨⟨0, by decide⟩, by decide, by decide, hexcl⟩ (hnone.1 rfl)

lemma tryLockAccounts_replicate (n : Nat) :
    fourThreads.tryLockAccounts (List.replicate n 7) [] (.any 4) firstThread =
      (fourThreads.lockAccounts (List.replicate n 7) [] (firstThread (.any 4))).map
        (some (firstThread (.any 4)), ·) := by
  have hany : fourThreads.schedulableThreads true 7 = some (.any 4) := rfl
  have hself : (any 4).bitand (.any 4) = .any 4 := by decide
  have hempty : (any 4).isEmpty = false := by decide
  have hnarrow : narrowThreads (fourThreads.schedulableThreads true) (List.replicate n 7) (.any 4) =
      some (some (.any 4)) := by
    induction n with
    | zero => rfl
    | succ n ih => simpa [replicate_succ, narrowThreads, hany, hself, hempty] using ih
  simp only [tryLockAccounts, accountsSchedulableThreads, show fourThreads.numThreads = 4 from rfl,
    hnarrow, narrowThreads, hself, hempty, bind_eq_bind, bind_some]
  cases fourThreads.lockAccounts (List.replicate n 7) [] (firstThread (.any 4)) <;> rfl

/-- A list that repeats a key `2 ^ 32` times overflows the count of its locks. -/
theorem tryLockAccounts_overflow :
    fourThreads.tryLockAccounts (List.replicate (u32Max + 1) 7) [] (.any 4) firstThread = none := by
  have hstart : LockRun 4 (by decide) (by decide) fourThreads [] := .start
  have hfree : ∀ k t, Free (heldBy []) true k t := fun k t u _ => ⟨rfl, fun _ => rfl⟩
  rw [tryLockAccounts_replicate, replicate_succ']
  generalize firstThread (.any 4) = t
  -- the first `u32Max` locks are counted, the next one overflows
  obtain ⟨keys, hkeys⟩ : ∃ keys, keys = List.replicate u32Max 7 := ⟨_, rfl⟩
  have hcount : ∀ k, keys.count k ≤ u32Max := fun k =>
    count_le_length.trans (by rw [hkeys, length_replicate])
  have hmax : keys.count 7 = u32Max := by rw [hkeys, count_replicate_self]
  rw [← hkeys]
  clear hkeys
  obtain ⟨l, hl, hrep, -⟩ := foldlM_lock keys (writeLockAccount_step (t := t))
    hstart.exact.represents (fun k _ => hfree k t) fun k => (Nat.zero_add _).trans_le (hcount k)
  have hlast : l.writeLockAccount t 7 = none := by
    have hwrite := hrep.write 7
    have hheld : addLocks (heldBy []) true keys t true 7 t = u32Max := by
      simp [addLocks, heldBy, hmax]
    unfold writeLockAccount
    rcases hget : l.writeLocks[7]? with _ | w <;> rw [hget] at hwrite
    · exact absurd (hheld.symm.trans (hwrite _)) (by decide)
    · have hcount := hheld.symm.trans (hwrite.2 _)
      split at hcount
      case isTrue ht => simp [← ht, ← hcount, incrementLockCount]
      case isFalse => exact absurd hcount (by decide)
  simp [lockAccounts, hl, hlast]

end Nuah.Proofs
