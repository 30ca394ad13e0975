import Nuah.AccountsPartition

/-!
# Partitions of pubkeys

All partitions have the same width, and the last one has also the prefixes that are left over. A
pubkey with such a prefix is registered under no partition, the greatest prefix apart.
-/

namespace Nuah.Proofs

open AccountsPartition RentPayingAccountsByPartition

variable {n p k : Nat} {r r' : RentPayingAccountsByPartition} {keys : List Pubkey}

def InPartition (partition : Partition) (k : Pubkey) : Prop :=
  ∃ range, pubkeyRangeFromPartition partition = some range ∧ range.1 ≤ k ∧ k ≤ range.2

/-- The partitions of a full cycle, one for each end index. -/
def cyclePartitions (n : Nat) : List Partition := (List.range n).map fun i => ⟨i - 1, i, n⟩

lemma flatMap_endIndexes (n : Nat) :
    (cyclePartitions n).flatMap getPartitionEndIndexes = List.range n := by
  have hsingle : ∀ i, getPartitionEndIndexes ⟨i - 1, i, n⟩ = [i] := by
    intro i
    cases i with
    | zero => rfl
    | succ i => simp [getPartitionEndIndexes]
  simp only [cyclePartitions, List.flatMap_map, hsingle, List.flatMap_singleton']

lemma prefixFromPubkey_lt (hk : k < 2 ^ 256) : prefixFromPubkey k < 2 ^ 64 :=
  Nat.div_lt_of_lt_mul hk

lemma mul_le_iff_le_prefix (a b k : Nat) : a * 2 ^ 192 ≤ k ∧ k ≤ b * 2 ^ 192 + (2 ^ 192 - 1) ↔
    a ≤ k / 2 ^ 192 ∧ k / 2 ^ 192 ≤ b := by omega

/-- What is left over belongs to the last partition. -/
lemma inPartition_iff (hk : k < 2 ^ 256) (hp : p < n) :
    InPartition ⟨p - 1, p, n⟩ k ↔ p = min (prefixFromPubkey k / partitionWidth n) (n - 1) := by
  have hpos : 0 < partitionWidth n := Nat.succ_pos _
  have hprefix : prefixFromPubkey k ≤ u64Max := Nat.le_of_lt_succ (prefixFromPubkey_lt hk)
  have hrange : pubkeyRangeFromPartition ⟨p - 1, p, n⟩ = some (firstPubkey (p * partitionWidth n),
      lastPubkey (if p + 1 = n then u64Max else (p + 1) * partitionWidth n - 1)) := by
    rw [pubkeyRangeFromPartition, if_pos (by omega)]
    cases p with
    | zero =>
      by_cases hone : n = 1
      · simp [hone, firstPubkey, lastPubkey, u64Max]
      · simp [hone]
    | succ p =>
      have hone : n ≠ 1 := by omega
      have hstart : p + 1 ≠ n := by omega
      simp [hone, hstart]
  have hmem : InPartition ⟨p - 1, p, n⟩ k ↔ p * partitionWidth n ≤ prefixFromPubkey k ∧
      prefixFromPubkey k ≤ if p + 1 = n then u64Max else (p + 1) * partitionWidth n - 1 := by
    simp only [InPartition, hrange, Option.some.injEq, exists_eq_left']
    exact mul_le_iff_le_prefix _ _ k
  rw [hmem, ← Nat.le_div_iff_mul_le hpos]
  split_ifs with hlast
  · omega
  · have hpos' : 0 < (p + 1) * partitionWidth n := Nat.mul_pos p.succ_pos hpos
    rw [Nat.le_sub_one_iff_lt hpos', ← Nat.div_lt_iff_lt_mul hpos]
    omega

section

variable (hn : 0 < n) (hfits : n ≤ u64Max)

include hn hfits

lemma partitionWidth_eq : partitionWidth n = 2 ^ 64 / n := by
  rw [Nat.div_eq_sub_div hn (hfits.trans (by decide)), partitionWidth]
  congr 2
  unfold u64Max at *
  omega

lemma partitionFromPubkey_eq (hk : k < 2 ^ 256) :
    partitionFromPubkey k n = some (if prefixFromPubkey k = u64Max then n - 1
      else prefixFromPubkey k / partitionWidth n) := by
  rw [partitionFromPubkey, if_neg hn.ne']
  by_cases hone : n = 1
  · rw [if_pos hone, partitionWidth_eq hn hfits, hone, Nat.div_one, 
      Nat.div_eq_of_lt (prefixFromPubkey_lt hk), ite_self]
  rw [if_neg hone]
  dsimp only
  split_ifs with hzero hmax hmax hdvd
  · simp [hzero, u64Max] at hmax
  · rw [hzero, Nat.zero_div]
  · rfl
  · rw [Nat.succ_div_of_dvd (Nat.dvd_of_mod_eq_zero hdvd), Nat.add_sub_cancel]
  · rw [Nat.succ_div_of_not_dvd (mt Nat.mod_eq_zero_of_dvd hdvd)]

lemma partitionFromPubkey_eq_min (hk : k < 2 ^ 256)
    (h : prefixFromPubkey k < n * partitionWidth n ∨ prefixFromPubkey k = u64Max) :
    partitionFromPubkey k n = some (min (prefixFromPubkey k / partitionWidth n) (n - 1)) := by
  have hpos : 0 < partitionWidth n := Nat.succ_pos _
  rw [partitionFromPubkey_eq hn hfits hk, ← Nat.div_lt_iff_lt_mul hpos] at *
  congr 1
  split_ifs with hmax
  · -- the greatest prefix is not below the last partition
    have hlast : n - 1 ≤ prefixFromPubkey k / partitionWidth n := by
      have hle : n * partitionWidth n ≤ 2 ^ 64 := by
        rw [partitionWidth_eq hn hfits]
        exact Nat.mul_div_le _ n
      rw [Nat.le_div_iff_mul_le hpos, hmax, Nat.sub_mul, u64Max]
      omega
    rw [min_eq_right hlast]
  · omega

end

lemma mem_addAccount (h : r.addAccount k = some r') (i j : Nat) :
    r'.partitionCount = r.partitionCount ∧
      (j ∈ r'.getPubkeysInPartitionIndex i ↔ j ∈ r.getPubkeysInPartitionIndex i ∨
        j = k ∧ partitionFromPubkey k r.partitionCount = some i) := by
  obtain ⟨e, he, h⟩ := Option.bind_eq_some_iff.1 h
  obtain ⟨l, hl, h⟩ := Option.bind_eq_some_iff.1 h
  cases h
  refine ⟨rfl, ?_⟩
  unfold getPubkeysInPartitionIndex
  by_cases hi : e = i
  · subst hi
    rw [List.getElem?_set_self (List.getElem?_eq_some_iff.1 hl).1, hl, he]
    simp [or_comm]
  · rw [List.getElem?_set_ne hi, he]
    simp [hi]

lemma mem_addAccounts (h : keys.foldlM addAccount r = some r') (i j : Nat) :
    j ∈ r'.getPubkeysInPartitionIndex i ↔ j ∈ r.getPubkeysInPartitionIndex i ∨
      j ∈ keys ∧ partitionFromPubkey j r.partitionCount = some i := by
  induction keys generalizing r with
  | nil =>
    cases h
    simp
  | cons key keys ih =>
    obtain ⟨r₁, hr₁, h⟩ := Option.bind_eq_some_iff.1 h
    obtain ⟨hcount, hmem⟩ := mem_addAccount hr₁ i j
    rw [ih h, hmem, hcount, List.mem_cons, or_assoc, or_and_right]
    refine or_congr_right (or_congr_left ?_)
    exact and_congr_right fun heq => by rw [heq]

/-- The partition of a pubkey is the one whose range has it, just when its prefix is not left over
or is the greatest one. -/
theorem partitionFromPubkey_inverts_iff (n k : Nat) (hn : 0 < n) (hfits : n ≤ u64Max)
    (hk : k < 2 ^ 256) : ∃ p, partitionFromPubkey k n = some p ∧
      ((p < n ∧ InPartition ⟨p - 1, p, n⟩ k) ↔
        prefixFromPubkey k < n * partitionWidth n ∨ prefixFromPubkey k = u64Max) ∧
      ∀ (keys : List Pubkey) r, keys.foldlM addAccount (new n) = some r → k ∈ keys →
        (prefixFromPubkey k < n * partitionWidth n ∨ prefixFromPubkey k = u64Max) →
        (∃! i, i ∈ (cyclePartitions n).flatMap getPartitionEndIndexes ∧
          k ∈ r.getPubkeysInPartitionIndex i) ∧
        ∀ i ∈ (cyclePartitions n).flatMap getPartitionEndIndexes,
          (k ∈ r.getPubkeysInPartitionIndex i ↔ InPartition ⟨i - 1, i, n⟩ k) := by
  by_cases hcond : prefixFromPubkey k < n * partitionWidth n ∨ prefixFromPubkey k = u64Max
  · have hmin := partitionFromPubkey_eq_min hn hfits hk hcond
    have hlt : min (prefixFromPubkey k / partitionWidth n) (n - 1) < n := by omega
    refine ⟨_, hmin, iff_of_true ⟨hlt, (inPartition_iff hk hlt).2 rfl⟩ hcond, ?_⟩
    intro keys r hr hkeys _
    simp only [flatMap_endIndexes, List.mem_range]
    have hmem : ∀ i < n, k ∈ r.getPubkeysInPartitionIndex i ↔ InPartition ⟨i - 1, i, n⟩ k := by
      intro i hi
      rw [mem_addAccounts hr, inPartition_iff hk hi, new, hmin]
      simp [getPubkeysInPartitionIndex, hi.le, hkeys, eq_comm]
    refine ⟨⟨_, ⟨hlt, (hmem _ hlt).2 ((inPartition_iff hk hlt).2 rfl)⟩, ?_⟩, hmem⟩
    rintro i ⟨hi, hki⟩
    exact (inPartition_iff hk hi).1 ((hmem i hi).1 hki)
  · have hfrom := partitionFromPubkey_eq hn hfits hk
    rw [if_neg fun h => hcond (.inr h)] at hfrom
    refine ⟨_, hfrom, iff_of_false ?_ hcond, fun _ _ _ _ h => absurd h hcond⟩
    rintro ⟨hlt, -⟩
    exact hcond (.inl ((Nat.div_lt_iff_lt_mul (Nat.succ_pos _)).1 hlt))

theorem partitionFromPubkey_inverts_last : InPartition ⟨431998, 431999, 432000⟩ (2 ^ 256 - 1) := by
  obtain ⟨p, hp, h, -⟩ := partitionFromPubkey_inverts_iff 432000 (2 ^ 256 - 1) (by decide)
    (by decide) (by decide)
  cases hp.symm.trans (by decide : _ = some 431999)
  exact (h.2 (.inr (by decide))).2

/-- A pubkey that is left over is not found in the range that it is in. -/
theorem leftover_pubkey_lost : InPartition ⟨5, 6, 7⟩ (firstPubkey (u64Max - 1)) ∧
    partitionFromPubkey (firstPubkey (u64Max - 1)) 7 = some 7 ∧
    partitionFromPubkey (firstPubkey (u64Max - 1)) 432000 = some 432000 ∧
    ∃ r, (new 7).addAccount (firstPubkey (u64Max - 1)) = some r ∧
      ((cyclePartitions 7).flatMap getPartitionEndIndexes).all fun i =>
        (r.getPubkeysInPartitionIndex i).isEmpty :=
  ⟨⟨_, rfl, by decide, by decide⟩, by decide, by decide, _, rfl, by decide⟩

end Nuah.Proofs
