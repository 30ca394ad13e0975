import Nuah.InvokeContext

/-!
# The lamports of an instruction

An instruction may name an account several times. Its lamports are summed over the first
occurrences, so the sum is over the set of the accounts that it names.
-/

namespace Nuah.Proofs

open ExceptLoops List Finset

variable {n sum : Nat} {accounts : List (Account Bytes)} {tc : TransactionContext}
  {ctx : InstructionContext}

variable {instructionAccounts : List InstructionAccount}

lemma asIndexOfAccount_of_le (h : n ≤ maxIndexOfAccount) : asIndexOfAccount n = n :=
  Nat.mod_eq_of_lt (Nat.lt_succ_of_le h)

def lamportsAt (accounts : List (Account Bytes)) (i : Nat) : Nat :=
  (accounts[i]?.map Account.lamports).getD 0

def totalLamports (accounts : List (Account Bytes)) : Nat := (accounts.map Account.lamports).sum

lemma totalLamports_eq_sum (accounts : List (Account Bytes)) :
    totalLamports accounts = ∑ i ∈ range accounts.length, lamportsAt accounts i := by
  rw [sum_range, totalLamports, ← Fin.sum_univ_fun_getElem]
  apply sum_congr rfl
  intro i _
  simp [lamportsAt]

/-- The total is unchanged if the lamports change only among some accounts, and their sum
stays the same. -/
lemma totalLamports_eq_of_sum_eq {accounts' : List (Account Bytes)} (s : Finset Nat)
    (hlength : accounts'.length = accounts.length)
    (hother : ∀ i ∉ s, lamportsAt accounts' i = lamportsAt accounts i)
    (hsum : ∑ i ∈ s, lamportsAt accounts' i = ∑ i ∈ s, lamportsAt accounts i) :
    totalLamports accounts' = totalLamports accounts := by
  -- Beyond the end of the list there are no lamports, so the sums extend to any larger set.
  have hextend : ∀ l : List (Account Bytes), totalLamports l =
      ∑ i ∈ range l.length ∪ s, lamportsAt l i := by
    intro l
    rw [totalLamports_eq_sum]
    apply sum_subset subset_union_left
    intro i _ hi
    have hlen : l.length ≤ i := by simpa using hi
    simp [lamportsAt, getElem?_eq_none hlen]
  have hsub : s ⊆ range accounts.length ∪ s := subset_union_right
  rw [hextend, hextend, hlength, ← sum_sdiff hsub, ← sum_sdiff hsub, hsum]
  congr 1
  apply sum_congr rfl
  intro i hi
  exact hother i (mem_sdiff.1 hi).2

def accountIndices (instructionAccounts : List InstructionAccount) : Finset Nat :=
  (instructionAccounts.map InstructionAccount.indexInTransaction).toFinset

lemma mem_accountIndices {i : Nat} :
    i ∈ accountIndices instructionAccounts ↔
      ∃ a ∈ instructionAccounts, a.indexInTransaction = i := by
  simp [accountIndices]

/-- All occurrences of an account point to one and the same occurrence. -/
structure Deduplicated (instructionAccounts : List InstructionAccount) : Prop where
  callee_eq : ∀ a ∈ instructionAccounts, ∀ b ∈ instructionAccounts,
    a.indexInTransaction = b.indexInTransaction → a.indexInCallee = b.indexInCallee
  first : ∀ a ∈ instructionAccounts, ∃ b, instructionAccounts[a.indexInCallee]? = some b ∧
    b.indexInTransaction = a.indexInTransaction

/-- What the occurrence at a position adds to the sum: its lamports if it is the first. -/
def firstLamports (accounts : List (Account Bytes)) (instructionAccounts : List InstructionAccount)
    (j : Nat) : Nat :=
  match instructionAccounts[j]? with
  | some a => if a.indexInCallee = j then lamportsAt accounts a.indexInTransaction else 0
  | none => 0

lemma addInstructionAccount_eq_ok {sum' j : Nat}
    (h : tc.addInstructionAccount ctx sum j = .ok sum') :
    sum' = sum + firstLamports tc.accounts ctx.instructionAccounts j := by
  obtain ⟨a, ha, h⟩ := bind_eq_ok.1 h
  have ha := okOr_eq_ok.1 ha
  unfold firstLamports
  rw [ha]
  simp only
  split at h
  · rename_i hdup
    cases h
    rw [if_neg hdup, Nat.add_zero]
  · rename_i hfirst
    obtain ⟨account, haccount, h⟩ := bind_eq_ok.1 h
    obtain ⟨-, rfl⟩ := checkedAddU128_eq_some.1 (okOr_eq_ok.1 h)
    rw [if_pos (not_not.1 hfirst), lamportsAt, okOr_eq_ok.1 haccount]
    exact Nat.add_comm _ _

lemma foldlM_addInstructionAccount
    (h : (List.range n).foldlM (tc.addInstructionAccount ctx) 0 = .ok sum) :
    sum = ∑ j ∈ range n, firstLamports tc.accounts ctx.instructionAccounts j := by
  induction n generalizing sum with
  | zero =>
    cases h
    rfl
  | succ n ih =>
    rw [range_succ, foldlM_append] at h
    obtain ⟨sum', hsum', h⟩ := bind_eq_ok.1 h
    obtain ⟨sum'', hsum'', h⟩ := bind_eq_ok.1 h
    cases h
    rw [Finset.sum_range_succ, ← ih hsum']
    exact addInstructionAccount_eq_ok hsum''

lemma Deduplicated.exists_position (h : Deduplicated instructionAccounts) : ∃ position : Nat → Nat,
      ∀ a ∈ instructionAccounts, position a.indexInTransaction = a.indexInCallee := by
  refine ⟨fun i => ((instructionAccounts.find? (·.indexInTransaction == i)).map
    InstructionAccount.indexInCallee).getD 0, ?_⟩
  intro a ha
  cases hfind : instructionAccounts.find? (·.indexInTransaction == a.indexInTransaction) with
  | none =>
    have := find?_eq_none.1 hfind a ha
    simp at this
  | some b =>
    simp only [hfind, Option.map_some, Option.getD_some]
    apply h.callee_eq b (mem_of_find?_eq_some hfind) a ha
    simpa using find?_some hfind

lemma sum_firstLamports (h : Deduplicated instructionAccounts) :
    ∑ i ∈ accountIndices instructionAccounts, lamportsAt accounts i =
      ∑ j ∈ range instructionAccounts.length,
        firstLamports accounts instructionAccounts j := by
  obtain ⟨position, hposition⟩ := h.exists_position
  have hfirst : ∀ i ∈ accountIndices instructionAccounts, ∃ b,
      instructionAccounts[position i]? = some b ∧ b.indexInTransaction = i ∧
        b.indexInCallee = position i := by
    intro i hi
    obtain ⟨a, ha, rfl⟩ := mem_accountIndices.1 hi
    obtain ⟨b, hb, hidx⟩ := h.first a ha
    rw [hposition a ha]
    exact ⟨b, hb, hidx, h.callee_eq b (mem_of_getElem? hb) a ha hidx⟩
  apply sum_of_injOn position
  · intro i hi i' hi' heq
    obtain ⟨b, hb, hidx, -⟩ := hfirst i hi
    obtain ⟨b', hb', hidx', -⟩ := hfirst i' hi'
    rw [heq, hb'] at hb
    rw [← hidx, ← hidx', Option.some.inj hb]
  · intro i hi
    obtain ⟨b, hb, -⟩ := hfirst i hi
    exact Finset.mem_coe.2 (Finset.mem_range.2 (List.getElem?_eq_some_iff.1 hb).1)
  · intro j _ hj
    unfold firstLamports
    split
    · rename_i a ha
      refine if_neg fun hcallee => hj ⟨a.indexInTransaction, ?_, ?_⟩
      · exact mem_coe.2 (mem_accountIndices.2 ⟨a, mem_of_getElem? ha, rfl⟩)
      · rw [hposition a (mem_of_getElem? ha), hcallee]
    · rfl
  · intro i hi
    obtain ⟨b, hb, hidx, hcallee⟩ := hfirst i hi
    unfold firstLamports
    rw [hb]
    simp [hcallee, hidx]

/-- The sum that push and pop compare is that of the accounts the instruction names. -/
theorem instructionAccountsLamportSum_eq_ok (hdedup : Deduplicated ctx.instructionAccounts)
    (hfits : ctx.instructionAccounts.length ≤ maxIndexOfAccount)
    (h : tc.instructionAccountsLamportSum ctx = .ok sum) :
    sum = ∑ i ∈ accountIndices ctx.instructionAccounts, lamportsAt tc.accounts i := by
  rw [sum_firstLamports hdedup]
  unfold TransactionContext.instructionAccountsLamportSum at h
  rw [InstructionContext.getNumberOfInstructionAccounts, asIndexOfAccount_of_le hfits] at h
  exact foldlM_addInstructionAccount h

end Nuah.Proofs
