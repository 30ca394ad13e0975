import Nuah.Proofs.InstructionSums
import Nuah.Lib.IndexMaps

/-!
# The accounts of a call

A call gives write access to no account that the caller cannot write to itself. An account is
found by its key, so this needs the accounts of the top-level instruction to be the first
ones with their keys.
-/

namespace Nuah.Proofs

open ExceptLoops IndexMaps List Option

variable {j i : Nat} {a : InstructionAccount} {b : BorrowedAccount Bytes} {message : Message}
  {accounts : List UInt8}

variable {l : List InstructionAccount} {k : Nat} {s w : Bool} {signers : List Pubkey}

def Writable (instructionAccounts : List InstructionAccount) (i : Nat) : Prop :=
  ∃ a ∈ instructionAccounts, a.indexInTransaction = i ∧ a.isWritable = true

def FitsIndices (programAccounts : List Nat) (instructionAccounts : List InstructionAccount) : Prop :=
  programAccounts.length + instructionAccounts.length ≤ maxIndexOfAccount

def FirstWithKey (accountKeys : List Pubkey) (instructionAccounts : List InstructionAccount) : Prop :=
  ∀ a ∈ instructionAccounts, ∀ key, accountKeys[a.indexInTransaction]? = some key →
    (accountKeys.findIdx? (· == key)).map asIndexOfAccount = some a.indexInTransaction

variable {tc : TransactionContext} {ctx : InstructionContext}

section

variable (hfits : FitsIndices ctx.programAccounts ctx.instructionAccounts)

include hfits

lemma getNumberOfProgramAccounts_eq :
    ctx.getNumberOfProgramAccounts = ctx.programAccounts.length :=
  asIndexOfAccount_of_le (le_trans (Nat.le_add_right _ _) hfits)

lemma hasPrivilege_instructionAccount
    {privilege : InstructionAccount → Bool} (ha : ctx.instructionAccounts[j]? = some a) :
    ctx.hasPrivilege privilege (saturatingAddIndex ctx.getNumberOfProgramAccounts j) =
      privilege a := by
  have hj : j < ctx.instructionAccounts.length := (List.getElem?_eq_some_iff.1 ha).1
  have hsum : saturatingAddIndex ctx.getNumberOfProgramAccounts j =
      ctx.programAccounts.length + j := by
    rw [getNumberOfProgramAccounts_eq hfits]
    unfold FitsIndices at hfits
    exact min_eq_left (by omega)
  unfold InstructionContext.hasPrivilege
  rw [hsum, getNumberOfProgramAccounts_eq hfits, if_neg (by omega), Nat.add_sub_cancel_left, ha]

end

/-- A borrowed account is that of the transaction, and may be written to only if it is
writable in the instruction. -/
structure BorrowedFrom (tc : TransactionContext) (ctx : InstructionContext)
    (b : BorrowedAccount Bytes) (i : Nat) : Prop where
  account_eq : tc.accounts[i]? = some b.account
  program_eq : b.lastProgramKey = ctx.getLastProgramKey tc
  writable : b.isWritable = true → Writable ctx.instructionAccounts i

section

variable (hfits : FitsIndices ctx.programAccounts ctx.instructionAccounts)

include hfits

lemma tryBorrowInstructionAccount_eq_ok (h : ctx.tryBorrowInstructionAccount tc j = .ok (b, i)) :
    BorrowedFrom tc ctx b i ∧
      ∃ a, ctx.instructionAccounts[j]? = some a ∧ a.indexInTransaction = i := by
  obtain ⟨a, ha, h⟩ := bind_eq_ok.1 h
  obtain ⟨account, haccount, h⟩ := bind_eq_ok.1 h
  cases h
  have ha := okOr_eq_ok.1 ha
  refine ⟨⟨okOr_eq_ok.1 haccount, rfl, fun hw => ?_⟩, a, ha, rfl⟩
  exact ⟨a, mem_of_getElem? ha, rfl,
    (hasPrivilege_instructionAccount hfits ha).symm.trans hw⟩

lemma tryBorrowProgramAccount_eq_ok (h : ctx.tryBorrowProgramAccount tc j = .ok (b, i)) :
    BorrowedFrom tc ctx b i := by
  obtain ⟨k, hk, h⟩ := bind_eq_ok.1 h
  obtain ⟨account, haccount, h⟩ := bind_eq_ok.1 h
  cases h
  refine ⟨okOr_eq_ok.1 haccount, rfl, fun hw => ?_⟩
  have hj : j < ctx.programAccounts.length := (List.getElem?_eq_some_iff.1 (okOr_eq_ok.1 hk)).1
  simp only [InstructionContext.hasPrivilege, getNumberOfProgramAccounts_eq hfits, if_pos hj] at hw
  cases hw

lemma tryBorrow_eq_ok {target : AccountTarget} (h : tryBorrow tc ctx target = .ok (b, i)) :
    BorrowedFrom tc ctx b i := by
  cases target with
  | instructionAccount j => exact (tryBorrowInstructionAccount_eq_ok hfits h).1
  | programAccount j => exact tryBorrowProgramAccount_eq_ok hfits h

end

lemma findIdx_take_getD {l : List UInt8} {x : UInt8} (h : l[j]? = some x) :
    ((l.take j).findIdx? (· == x)).getD j = l.findIdx (· == x) := by
  obtain ⟨hj, rfl⟩ := List.getElem?_eq_some_iff.1 h
  have hle : l.findIdx (· == l[j]) ≤ j := by
    by_contra hlt
    exact absurd (not_of_lt_findIdx (not_le.1 hlt)) (by simp)
  have hfind := findIdx?_eq_some_of_exists (p := (· == l[j])) ⟨l[j], getElem_mem hj, by simp⟩
  rw [findIdx?_take, hfind]
  rcases hle.lt_or_eq with hlt | heq
  · simp [Option.guard, hlt]
  · simp [Option.guard, heq]

lemma asIndexOfAccount_toNat (x : UInt8) : asIndexOfAccount x.toNat = x.toNat :=
  asIndexOfAccount_of_le (x.toNat_lt.le.trans (by decide))

section

variable (hfits : accounts.length ≤ maxIndexOfAccount)

include hfits

lemma mem_topLevelInstructionAccounts
    (ha : a ∈ topLevelInstructionAccounts message accounts) : ∃ x ∈ accounts,
      a.indexInTransaction = x.toNat ∧ a.indexInCallee = accounts.findIdx (· == x) ∧
      a.isWritable = message.isWritable x.toNat := by
  obtain ⟨j, hj, rfl⟩ := mem_mapIdx.1 ha
  have hmem : accounts[j] ∈ accounts := getElem_mem hj
  refine ⟨accounts[j], hmem, asIndexOfAccount_toNat _, ?_, rfl⟩
  simp only [findIdx_take_getD (getElem?_eq_getElem hj)]
  exact asIndexOfAccount_of_le (findIdx_le_length.trans hfits)

lemma topLevelInstructionAccounts_deduplicated :
    Deduplicated (topLevelInstructionAccounts message accounts) := by
  constructor
  · intro a ha b hb hidx
    obtain ⟨x, -, hx, hxc, -⟩ := mem_topLevelInstructionAccounts hfits ha
    obtain ⟨y, -, hy, hyc, -⟩ := mem_topLevelInstructionAccounts hfits hb
    rw [hx, hy] at hidx
    rw [hxc, hyc, UInt8.toNat_inj.1 hidx]
  · intro a ha
    obtain ⟨x, hx, hidx, hcallee, -⟩ := mem_topLevelInstructionAccounts hfits ha
    have hlt : accounts.findIdx (· == x) < accounts.length :=
      findIdx_lt_length_of_exists ⟨x, hx, beq_self_eq_true x⟩
    have hget : accounts[accounts.findIdx (· == x)] = x := by
      simpa using findIdx_getElem (w := hlt)
    rw [hcallee, hidx, topLevelInstructionAccounts, getElem?_mapIdx, getElem?_eq_getElem hlt, hget]
    exact ⟨_, rfl, asIndexOfAccount_toNat x⟩

lemma topLevelInstructionAccounts_firstWithKey {accountKeys : List Pubkey}
    (hfirst : ∀ x ∈ accounts, ∀ j < x.toNat, accountKeys[j]? ≠ accountKeys[x.toNat]?) :
    FirstWithKey accountKeys (topLevelInstructionAccounts message accounts) := by
  intro a ha key hkey
  obtain ⟨x, hx, hidx, -⟩ := mem_topLevelInstructionAccounts hfits ha
  rw [hidx] at hkey ⊢
  obtain ⟨hlt, hget⟩ := List.getElem?_eq_some_iff.1 hkey
  have hfind : accountKeys.findIdx? (· == key) = some x.toNat := by
    refine List.findIdx?_eq_some_iff_getElem.2 ⟨hlt, by simpa using hget, fun j hj => ?_⟩
    have hne := hfirst x hx j hj
    rw [hkey, getElem?_eq_getElem (hj.trans hlt)] at hne
    simpa using hne
  rw [hfind, map_some, asIndexOfAccount_toNat]

end

/-- After a number of account metas the accounts are different ones, each points to the first meta
that named it, and each was found by its key in the transaction and in the caller. -/
structure Prepared (tc : TransactionContext) (ctx : InstructionContext) (n : Nat)
    (p : InvokeContext.PreparedAccounts) : Prop where
  length_eq : p.duplicateIndices.length = n
  nodup : (p.deduplicatedInstructionAccounts.map InstructionAccount.indexInTransaction).Nodup
  first : ∀ (d : Nat) (a : InstructionAccount), p.deduplicatedInstructionAccounts[d]? = some a →
    p.duplicateIndices[a.indexInCallee]? = some d
  found : ∀ a ∈ p.deduplicatedInstructionAccounts, ∃ key,
    tc.findIndexOfAccount key = some a.indexInTransaction ∧
      ctx.findIndexOfInstructionAccount tc key = some a.indexInCaller

lemma getElem?_modify_privileges {d : Nat}
    (h : (l.modify k fun a => { a with isSigner := a.isSigner || s, isWritable := a.isWritable || w })[d]? = some a) :
    ∃ b, l[d]? = some b ∧ a.indexInTransaction = b.indexInTransaction ∧
      a.indexInCaller = b.indexInCaller ∧ a.indexInCallee = b.indexInCallee := by
  rw [getElem?_modify] at h
  obtain ⟨b, hb, rfl⟩ := map_eq_some_iff.1 h
  refine ⟨b, hb, ?_⟩
  split <;> exact ⟨rfl, rfl, rfl⟩

lemma map_modify_privileges :
    (l.modify k fun a => { a with
      isSigner := a.isSigner || s, isWritable := a.isWritable || w }).map
        InstructionAccount.indexInTransaction = l.map InstructionAccount.indexInTransaction := by
  apply ext_getElem?
  intro d
  rw [getElem?_map, getElem?_map, getElem?_modify]
  cases l[d]? with
  | none => rfl
  | some b =>
    simp only [Option.map_some, Option.map_eq_map]
    split <;> rfl

lemma prepareAccount_prepared {n : Nat} {p p' : InvokeContext.PreparedAccounts}
    {accountMeta : AccountMeta} (hn : n ≤ maxIndexOfAccount) (hp : Prepared tc ctx n p)
    (h : InvokeContext.prepareAccount tc ctx p (accountMeta, n) = .ok p') :
    Prepared tc ctx (n + 1) p' := by
  obtain ⟨i, hi, h⟩ := bind_eq_ok.1 h
  have hi := okOr_eq_ok.1 hi
  split at h
  · cases h
    constructor
    · simp [hp.length_eq]
    · rw [map_modify_privileges]
      exact hp.nodup
    · intro d a ha
      obtain ⟨b, hb, -, -, hcallee⟩ := getElem?_modify_privileges ha
      rw [hcallee]
      exact getElem?_concat_eq_some.2 (.inl (hp.first d b hb))
    · intro a ha
      obtain ⟨d, ha⟩ := mem_iff_getElem?.1 ha
      obtain ⟨b, hb, hidx, hcaller, -⟩ := getElem?_modify_privileges ha
      rw [hidx, hcaller]
      exact hp.found b (mem_of_getElem? hb)
  · rename_i hnew
    obtain ⟨c, hc, h⟩ := bind_eq_ok.1 h
    have hc := okOr_eq_ok.1 hc
    cases h
    constructor
    · simp [hp.length_eq]
    · rw [map_append, nodup_append]
      refine ⟨hp.nodup, by simp, ?_⟩
      intro x hx y hy
      obtain ⟨b, hb, rfl⟩ := mem_map.1 hx
      have hne := findIdx?_eq_none_iff.1 hnew b hb
      rw [map_singleton, mem_singleton] at hy
      subst hy
      simpa using hne
    · intro d a ha
      rcases getElem?_concat_eq_some.1 ha with ha | ⟨rfl, rfl⟩
      · exact getElem?_concat_eq_some.2 (.inl (hp.first d a ha))
      · rw [asIndexOfAccount_of_le hn, ← hp.length_eq, getElem?_concat_length]
    · exact forall_mem_append.2 ⟨hp.found, forall_mem_singleton.2 ⟨accountMeta.pubkey, hi, hc⟩⟩

section

variable (hfirst : FirstWithKey tc.accountKeys ctx.instructionAccounts)

include hfirst

section

variable (hfits : FitsIndices ctx.programAccounts ctx.instructionAccounts)

include hfits

lemma found_eq {key : Pubkey} {c : Nat} (hi : tc.findIndexOfAccount key = some i)
    (hc : ctx.findIndexOfInstructionAccount tc key = some c)
    (ha : ctx.instructionAccounts[c]? = some a) : a.indexInTransaction = i := by
  obtain ⟨k, hk, rfl⟩ := map_eq_some_iff.1 hc
  obtain ⟨hklt, hkkey, -⟩ := findIdx?_eq_some_iff_getElem.1 hk
  unfold FitsIndices at hfits
  rw [asIndexOfAccount_of_le (by omega), getElem?_eq_getElem hklt] at ha
  rw [Option.some.inj ha] at hkkey
  have hmem : a ∈ ctx.instructionAccounts := Option.some.inj ha ▸ getElem_mem hklt
  exact mem_unique (hfirst a hmem key (beq_iff_eq.1 hkkey)) hi

lemma checkPrivileges_writable
    (hfound : ∃ key, tc.findIndexOfAccount key = some a.indexInTransaction ∧ ctx.findIndexOfInstructionAccount tc key = some a.indexInCaller)
    (h : InvokeContext.checkPrivileges tc ctx signers a = .ok ()) (hw : a.isWritable = true) :
    Writable ctx.instructionAccounts a.indexInTransaction := by
  obtain ⟨⟨b, i⟩, hb, h⟩ := bind_eq_ok.1 h
  obtain ⟨hborrowed, a', ha', hidx⟩ := tryBorrowInstructionAccount_eq_ok hfits hb
  obtain ⟨key, hi, hc⟩ := hfound
  obtain ⟨hescalated, h⟩ := ite_error_eq_ok.1 h
  have hsame := found_eq hfirst hfits hi hc ha'
  rw [← hsame, hidx]
  apply hborrowed.writable
  simpa [hw] using hescalated

end

/-- The accounts of a call: their repetitions are marked, and the callee can write only to
what the caller can write to. -/
theorem prepareInstruction_eq_ok (hlen : tc.accountKeys.length ≤ maxIndexOfAccount + 1)
    (hcurrent : tc.instructionStack.head? = some ctx)
    (hfits : FitsIndices ctx.programAccounts ctx.instructionAccounts) {instruction : Instruction}
    (hmetas : instruction.accounts.length < maxIndexOfAccount)
    {instructionAccounts : List InstructionAccount} {programIndices : List Nat}
    (h : InvokeContext.prepareInstruction tc instruction signers =
      .ok (instructionAccounts, programIndices)) :
    Deduplicated instructionAccounts ∧ FitsIndices programIndices instructionAccounts ∧
      FirstWithKey tc.accountKeys instructionAccounts ∧
      ∀ i, Writable instructionAccounts i → Writable ctx.instructionAccounts i := by
  obtain ⟨ctx', hctx', h⟩ := bind_eq_ok.1 h
  obtain ⟨p, hp, h⟩ := bind_eq_ok.1 h
  obtain ⟨_, hprivileges, h⟩ := bind_eq_ok.1 h
  obtain ⟨accounts, haccounts, h⟩ := bind_eq_ok.1 h
  obtain ⟨_, -, h⟩ := bind_eq_ok.1 h
  obtain ⟨⟨program, index⟩, -, h⟩ := bind_eq_ok.1 h
  obtain ⟨-, h⟩ := ite_error_eq_ok.1 h
  cases h
  cases (okOr_eq_ok.1 hctx').symm.trans hcurrent
  have hprepared : Prepared tc ctx instruction.accounts.length p := by
    refine foldlM_zipIdx_invariant (Prepared tc ctx) ?_ ⟨rfl, by simp, by simp, by simp⟩ hp
    intro n accountMeta s s' hget hs hok
    have hn := (List.getElem?_eq_some_iff.1 hget).1
    exact prepareAccount_prepared (by omega) hs hok
  -- The account at a position is the one that the position's duplicate index points to.
  have hmap := mapM_eq_ok haccounts
  have hget : ∀ {j : Nat} {a : InstructionAccount}, instructionAccounts[j]? = some a →
      ∃ d, p.duplicateIndices[j]? = some d ∧ p.deduplicatedInstructionAccounts[d]? = some a := by
    intro j a ha
    have hj := congrArg (·[j]?) hmap
    simp only [getElem?_map, ha, map_some] at hj
    obtain ⟨d, hd, hok⟩ := map_eq_some_iff.1 hj
    exact ⟨d, hd, okOr_eq_ok.1 hok⟩
  have hmem : ∀ a ∈ instructionAccounts, a ∈ p.deduplicatedInstructionAccounts := by
    intro a ha
    obtain ⟨j, hj⟩ := mem_iff_getElem?.1 ha
    obtain ⟨d, -, hd⟩ := hget hj
    exact mem_of_getElem? hd
  refine ⟨⟨?_, ?_⟩, ?_, ?_, ?_⟩
  · intro a ha b hb hidx
    rw [inj_on_of_nodup_map hprepared.nodup (hmem a ha) (hmem b hb) hidx]
  · intro a ha
    obtain ⟨j, hj⟩ := mem_iff_getElem?.1 ha
    obtain ⟨d, -, hd⟩ := hget hj
    refine ⟨a, ?_, rfl⟩
    have hj := congrArg (·[a.indexInCallee]?) hmap
    simp only [getElem?_map, hprepared.first d a hd, map_some] at hj
    obtain ⟨b, hb, hok⟩ := map_eq_some_iff.1 hj.symm
    rw [hb]
    exact (okOr_eq_ok.1 hok.symm).symm.trans hd
  · have hlength : instructionAccounts.length = instruction.accounts.length := by
      rw [← hprepared.length_eq]
      simpa using (congrArg List.length hmap).symm
    unfold FitsIndices
    rw [hlength, length_singleton]
    omega
  · intro a ha key hkey
    obtain ⟨key', hi, -⟩ := hprepared.found a (hmem a ha)
    have hsame : key' = key := by
      obtain ⟨j, hj, hidx⟩ := map_eq_some_iff.1 hi
      obtain ⟨hjlt, hjkey, -⟩ := findIdx?_eq_some_iff_getElem.1 hj
      rw [← hidx, asIndexOfAccount_of_le (by omega), getElem?_eq_getElem hjlt] at hkey
      rw [← Option.some.inj hkey, beq_iff_eq.1 hjkey]
    rw [← hsame]
    exact hi
  · rintro i ⟨a, ha, rfl, hw⟩
    exact checkPrivileges_writable hfirst hfits (hprepared.found a (hmem a ha))
      (forM_eq_ok.1 hprivileges a (hmem a ha)) hw

end

end Nuah.Proofs
