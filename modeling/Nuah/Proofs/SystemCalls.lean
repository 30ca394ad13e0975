import Nuah.SystemProgram
import Nuah.Proofs.Entitlement

/-!
# Calls of the system program

What a call of the system program leaves alone: it takes lamports only from accounts without
data, and gives data only to such. An account with data keeps it, and its lamports do not get
fewer.
-/

namespace Nuah.Proofs

open ExceptLoops IndexMaps InvokeContext SystemProgram List Option

variable {b' : BorrowedAccount Bytes} {out : List Nat} {sender space : Nat}
  {systemProgramId owner : Pubkey}

variable {b : BorrowedAccount Bytes} {i lamports position j : Nat} {key : Pubkey}

variable {tc tc' : TransactionContext} {ctx : InstructionContext}

variable {a : Account Bytes} {signers : List Pubkey} {instruction : Instruction}

/-- The data of the account is as it was, and its lamports are not fewer. -/
def Kept (a a' : Account Bytes) : Prop :=
  a'.data = a.data ∧ a.lamports ≤ a'.lamports

lemma Kept.refl (a : Account Bytes) : Kept a a := ⟨rfl, le_rfl⟩

lemma Kept.trans {b c : Account Bytes} (hab : Kept a b) (hbc : Kept b c) : Kept a c :=
  ⟨hbc.1.trans hab.1, hab.2.trans hbc.2⟩

/-- The account at a position is kept, and the accounts have their keys. -/
structure Keeps (x : Nat) (tc tc' : TransactionContext) : Prop where
  keys : tc'.accountKeys = tc.accountKeys
  kept : ∀ a, tc.accounts[x]? = some a → ∃ a', tc'.accounts[x]? = some a' ∧ Kept a a'

namespace Keeps

variable {x : Nat}

lemma refl (x : Nat) (tc : TransactionContext) : Keeps x tc tc :=
  ⟨rfl, fun a ha => ⟨a, ha, Kept.refl a⟩⟩

lemma trans {tc₁ tc₂ tc₃ : TransactionContext} (h₁₂ : Keeps x tc₁ tc₂) (h₂₃ : Keeps x tc₂ tc₃) :
    Keeps x tc₁ tc₃ := by
  refine ⟨h₂₃.keys.trans h₁₂.keys, fun a ha => ?_⟩
  obtain ⟨b, hb, hab⟩ := h₁₂.kept a ha
  obtain ⟨c, hc, hbc⟩ := h₂₃.kept b hb
  exact ⟨c, hc, hab.trans hbc⟩

lemma of_call {pushed called : TransactionContext} (h : Keeps x pushed called)
    (hkeys : pushed.accountKeys = tc.accountKeys) (haccounts : pushed.accounts = tc.accounts)
    (hkeys' : tc'.accountKeys = called.accountKeys) (haccounts' : tc'.accounts = called.accounts) :
    Keeps x tc tc' := by
  refine ⟨hkeys'.trans (h.keys.trans hkeys), fun a ha => ?_⟩
  rw [← haccounts] at ha
  rw [haccounts']
  exact h.kept a ha

lemma store_of_ne (hne : i ≠ x) (b : BorrowedAccount Bytes) : Keeps x tc (tc.store i b) := by
  refine ⟨rfl, fun a ha => ⟨a, ?_, Kept.refl a⟩⟩
  rw [TransactionContext.store, getElem?_set_ne hne]
  exact ha

lemma storeResized_of_ne (hne : i ≠ x) (resized : BorrowedAccount Bytes × Int) :
    Keeps x tc (tc.storeResized i resized) := by
  obtain ⟨hkeys, hkept⟩ : Keeps x tc (tc.store i resized.1) := store_of_ne hne resized.1
  exact ⟨hkeys, hkept⟩

lemma store_of_kept (ha : tc.accounts[i]? = some a) (hkept : Kept a b.account) :
    Keeps x tc (tc.store i b) := by
  by_cases hne : i = x
  · subst hne
    refine ⟨rfl, fun a' ha' => ⟨b.account, ?_, ?_⟩⟩
    · exact List.getElem?_set_self (List.getElem?_eq_some_iff.1 ha).1
    · rw [mem_unique ha' ha]
      exact hkept
  · exact store_of_ne hne b

end Keeps

lemma kept_checkedAddLamports (h : b.checkedAddLamports lamports = .ok b') :
    Kept b.account b'.account := by
  obtain ⟨-, -, rfl⟩ := BorrowedAccount.checkedAddLamports_eq_ok h
  exact ⟨rfl, Nat.le_add_right _ _⟩

lemma ensure_eq_ok {p : Prop} [Decidable p] {e : InstructionError} {u : Unit} :
    ensure p e = .ok u ↔ p := by
  unfold ensure
  split_ifs with h
  · exact iff_of_true rfl h
  · exact iff_of_false nofun h

/-- A borrowed account is that of the transaction, and is not borrowed already. -/
structure Borrows (ctx : InstructionContext) (tc : TransactionContext) (out : List Nat)
    (position : Nat) (b : BorrowedAccount Bytes) (i : Nat) : Prop where
  account : tc.accounts[i]? = some b.account
  notOut : i ∉ out
  index : ctx.getIndexOfInstructionAccountInTransaction position = .ok i

lemma borrow_eq_ok (h : ctx.borrow tc out position = .ok (b, i)) :
    Borrows ctx tc out position b i := by
  obtain ⟨⟨b', i'⟩, hborrow, h⟩ := bind_eq_ok.1 h
  dsimp only at h
  obtain ⟨hout, h⟩ := ite_error_eq_ok.1 h
  cases h
  obtain ⟨a, ha, hborrow⟩ := bind_eq_ok.1 hborrow
  obtain ⟨account, haccount, hborrow⟩ := bind_eq_ok.1 hborrow
  cases hborrow
  refine ⟨okOr_eq_ok.1 haccount, hout, ?_⟩
  rw [InstructionContext.getIndexOfInstructionAccountInTransaction, ha]
  rfl

lemma Borrows.index_unique {out' : List Nat} (h : Borrows ctx tc out position b i)
    (h' : Borrows ctx tc' out' position b' j) : i = j :=
  Except.ok.inj (h.index.symm.trans h'.index)

lemma getKeyOfInstructionAccount_eq_ok (h : ctx.getKeyOfInstructionAccount tc position = .ok key) :
    ∃ i, ctx.getIndexOfInstructionAccountInTransaction position = .ok i ∧
      tc.accountKeys[i]? = some key := by
  obtain ⟨i, hi, hkey⟩ := bind_eq_ok.1 h
  exact ⟨i, hi, okOr_eq_ok.1 hkey⟩

lemma isInstructionAccountSigner_eq_ok {isSigner : Bool}
    (h : ctx.isInstructionAccountSigner position = .ok isSigner) :
    ∃ a ∈ ctx.instructionAccounts, a.isSigner = isSigner ∧
      ctx.getIndexOfInstructionAccountInTransaction position = .ok a.indexInTransaction := by
  obtain ⟨a, ha, hsigner⟩ := bind_eq_ok.1 h
  have ha := okOr_eq_ok.1 ha
  refine ⟨a, mem_of_getElem? ha, Except.ok.inj hsigner, ?_⟩
  rw [InstructionContext.getIndexOfInstructionAccountInTransaction, ha]
  rfl

section

variable {x : Nat} (ha : tc.accounts[x]? = some a) (hdata : a.data ≠ [])

include ha hdata

lemma ne_of_data_nil {b : Account Bytes} (hb : tc.accounts[i]? = some b) (hnil : b.data = []) :
    i ≠ x := by
  rintro rfl
  rw [mem_unique ha hb] at hdata
  exact hdata hnil

lemma transfer_keeps {recipient : Nat}
    (h : transfer ctx tc sender recipient lamports = .ok tc') : Keeps x tc tc' := by
  obtain ⟨_, -, h⟩ := bind_eq_ok.1 h
  have h := rest_eq_ok h
  obtain ⟨⟨from₀, i⟩, hfrom, h⟩ := bind_eq_ok.1 h
  obtain ⟨_, hnil, h⟩ := bind_eq_ok.1 h
  have h := rest_eq_ok h
  obtain ⟨from₁, -, h⟩ := bind_eq_ok.1 h
  obtain ⟨⟨to₀, j⟩, hto, h⟩ := bind_eq_ok.1 h
  obtain ⟨to₁, hadd, h⟩ := bind_eq_ok.1 h
  cases h
  have hne := ne_of_data_nil ha hdata (borrow_eq_ok hfrom).account (ensure_eq_ok.1 hnil)
  exact (Keeps.store_of_ne hne from₁).trans
    (Keeps.store_of_kept (borrow_eq_ok hto).account (kept_checkedAddLamports hadd))

lemma createAccount_keeps {target : Nat} {address : Pubkey}
    (h : createAccount systemProgramId ctx tc sender target address lamports space owner signers = .ok tc') :
    Keeps x tc tc' ∧ ctx.getIndexOfInstructionAccountInTransaction target ≠ .ok x := by
  obtain ⟨⟨target₀, i⟩, htarget, h⟩ := bind_eq_ok.1 h
  have h := rest_eq_ok h
  obtain ⟨⟨target₁, delta⟩, hallocate, h⟩ := bind_eq_ok.1 h
  obtain ⟨target₂, -, h⟩ := bind_eq_ok.1 h
  have hallocate := rest_eq_ok hallocate
  obtain ⟨_, hfree, -⟩ := bind_eq_ok.1 hallocate
  have hborrows := borrow_eq_ok htarget
  have hne := ne_of_data_nil ha hdata hborrows.account (ensure_eq_ok.1 hfree).1
  have hstored : Keeps x tc (tc.storeResized i (target₂, delta)) :=
    Keeps.storeResized_of_ne hne (target₂, delta)
  obtain ⟨a₁, ha₁, hkept⟩ := hstored.kept a ha
  refine ⟨hstored.trans (transfer_keeps ha₁ (hkept.1 ▸ hdata) h), fun hindex => ?_⟩
  exact hne (Except.ok.inj (hborrows.index.symm.trans hindex))

end

/-- The accounts of a call that are prepared so far stand at the positions of their metas. -/
structure InPosition (tc : TransactionContext) (metas : List AccountMeta) (n : Nat)
    (p : InvokeContext.PreparedAccounts) : Prop where
  length_eq : p.duplicateIndices.length = n
  found : ∀ (j d : Nat), p.duplicateIndices[j]? = some d →
    ∃ (b : InstructionAccount) (accountMeta : AccountMeta),
      p.deduplicatedInstructionAccounts[d]? = some b ∧ metas[j]? = some accountMeta ∧
      tc.findIndexOfAccount accountMeta.pubkey = some b.indexInTransaction

lemma prepareAccount_inPosition {metas : List AccountMeta} {n : Nat}
    {p p' : InvokeContext.PreparedAccounts} {accountMeta : AccountMeta}
    (hmeta : metas[n]? = some accountMeta) (hp : InPosition tc metas n p)
    (h : prepareAccount tc ctx p (accountMeta, n) = .ok p') :
    InPosition tc metas (n + 1) p' := by
  obtain ⟨i, hi, h⟩ := bind_eq_ok.1 h
  have hi := okOr_eq_ok.1 hi
  split at h
  next k hk =>
    cases h
    refine ⟨by simp [hp.length_eq], fun j d hj => ?_⟩
    obtain ⟨hklt, hkindex, -⟩ := findIdx?_eq_some_iff_getElem.1 hk
    have hmodified : ∀ {b : InstructionAccount},
        p.deduplicatedInstructionAccounts[d]? = some b →
        ∃ b', (p.deduplicatedInstructionAccounts.modify k fun a => { a with
          isSigner := a.isSigner || accountMeta.isSigner
          isWritable := a.isWritable || accountMeta.isWritable })[d]? = some b' ∧
          b'.indexInTransaction = b.indexInTransaction := by
      intro b hb
      rw [getElem?_modify, hb]
      refine ⟨_, rfl, ?_⟩
      split <;> rfl
    rcases getElem?_concat_eq_some.1 hj with hj | ⟨rfl, rfl⟩
    · obtain ⟨b, m, hb, hm, hfound⟩ := hp.found j d hj
      obtain ⟨b', hb', hindex⟩ := hmodified hb
      exact ⟨b', m, hb', hm, hindex ▸ hfound⟩
    · obtain ⟨b', hb', hindex⟩ := hmodified (getElem?_eq_getElem hklt)
      refine ⟨b', accountMeta, hb', hp.length_eq.symm ▸ hmeta, ?_⟩
      rw [hindex, beq_iff_eq.1 hkindex]
      exact hi
  next =>
    obtain ⟨c, -, h⟩ := bind_eq_ok.1 h
    cases h
    refine ⟨by simp [hp.length_eq], fun j d hj => ?_⟩
    rcases getElem?_concat_eq_some.1 hj with hj | ⟨rfl, rfl⟩
    · obtain ⟨b, m, hb, hm, hfound⟩ := hp.found j d hj
      exact ⟨b, m, getElem?_concat_eq_some.2 (.inl hb), hm, hfound⟩
    · exact ⟨_, accountMeta, List.getElem?_concat_length, hp.length_eq.symm ▸ hmeta, hi⟩

lemma prepareInstruction_positions {instructionAccounts : List InstructionAccount}
    {programIndices : List Nat}
    (h : prepareInstruction tc instruction signers = .ok (instructionAccounts, programIndices))
    {b : InstructionAccount} (hb : instructionAccounts[j]? = some b) :
    ∃ accountMeta, instruction.accounts[j]? = some accountMeta ∧
      tc.findIndexOfAccount accountMeta.pubkey = some b.indexInTransaction := by
  obtain ⟨ctx, -, h⟩ := bind_eq_ok.1 h
  obtain ⟨p, hp, h⟩ := bind_eq_ok.1 h
  have h := rest_eq_ok h
  obtain ⟨accounts, haccounts, h⟩ := bind_eq_ok.1 h
  obtain ⟨_, -, h⟩ := bind_eq_ok.1 h
  obtain ⟨⟨program, index⟩, -, h⟩ := bind_eq_ok.1 h
  obtain ⟨-, h⟩ := ite_error_eq_ok.1 h
  cases h
  have hpositions : InPosition tc instruction.accounts instruction.accounts.length p := by
    refine foldlM_zipIdx_invariant (InPosition tc instruction.accounts) ?_ ⟨rfl, by simp⟩ hp
    exact fun n accountMeta s s' hget hs hok => prepareAccount_inPosition hget hs hok
  have hj := congrArg (·[j]?) (mapM_eq_ok haccounts)
  simp only [getElem?_map, hb, map_some] at hj
  obtain ⟨d, hd, hok⟩ := map_eq_some_iff.1 hj
  obtain ⟨b', accountMeta, hb', hmeta, hfound⟩ := hpositions.found j d hd
  rw [mem_unique hb' (okOr_eq_ok.1 hok)] at hfound
  exact ⟨accountMeta, hmeta, hfound⟩

lemma findIndexOfAccount_eq_some (hdistinct : tc.accountKeys.Nodup)
    (hfits : tc.accountKeys.length ≤ maxIndexOfAccount) (hi : tc.accountKeys[i]? = some key)
    (hj : tc.findIndexOfAccount key = some j) : j = i := by
  obtain ⟨k, hk, rfl⟩ := map_eq_some_iff.1 hj
  obtain ⟨hklt, hkkey, -⟩ := List.findIdx?_eq_some_iff_getElem.1 hk
  obtain ⟨hilt, hikey⟩ := List.getElem?_eq_some_iff.1 hi
  rw [asIndexOfAccount_of_le (hklt.le.trans hfits)]
  exact (List.Nodup.getElem_inj_iff hdistinct).1 ((beq_iff_eq.1 hkkey).trans hikey.symm)

lemma nativeInvoke_eq_ok {process : TransactionContext → InstructionResult TransactionContext}
    (h : nativeInvoke tc instruction signers process = .ok tc') :
    ∃ (pushed called : TransactionContext) (callee : InstructionContext),
      pushed.accountKeys = tc.accountKeys ∧ pushed.accounts = tc.accounts ∧
      pushed.getCurrentInstructionContext = .ok callee ∧
      (∀ (j : Nat) (b : InstructionAccount), callee.instructionAccounts[j]? = some b →
        ∃ accountMeta : AccountMeta, instruction.accounts[j]? = some accountMeta ∧
          tc.findIndexOfAccount accountMeta.pubkey = some b.indexInTransaction) ∧
      process pushed = .ok called ∧ tc'.accountKeys = called.accountKeys ∧
      tc'.accounts = called.accounts := by
  obtain ⟨⟨instructionAccounts, programIndices⟩, hprepare, h⟩ := bind_eq_ok.1 h
  obtain ⟨pushed, hpush, h⟩ := bind_eq_ok.1 h
  obtain ⟨called, hcalled, h⟩ := bind_eq_ok.1 h
  obtain ⟨sum, -, hkeys, haccounts, hstack⟩ := push_eq_ok hpush
  obtain ⟨callee, hcallee, -⟩ := bind_eq_ok.1 h
  obtain ⟨-, hkeys', haccounts', -⟩ := pop_eq_ok (okOr_eq_ok.1 hcallee) h
  refine ⟨pushed, called, ⟨sum, programIndices, instructionAccounts⟩, hkeys, haccounts, ?_, ?_,
    hcalled, hkeys', haccounts'⟩
  · rw [TransactionContext.getCurrentInstructionContext, hstack]
    rfl
  · intro j b hb
    exact prepareInstruction_positions hprepare hb

section

variable {x : Nat} (ha : tc.accounts[x]? = some a) (hdata : a.data ≠ [])

include ha hdata

lemma invoke_transfer_keeps
    (h : nativeInvoke tc instruction signers (processTransfer lamports) = .ok tc') :
    Keeps x tc tc' := by
  obtain ⟨pushed, called, callee, hkeys, haccounts, -, -, hcalled, hkeys', haccounts'⟩ :=
    nativeInvoke_eq_ok h
  obtain ⟨ctx, -, hcalled⟩ := bind_eq_ok.1 hcalled
  have hcalled := rest_eq_ok hcalled
  have hcalled := rest_eq_ok hcalled
  rw [← haccounts] at ha
  exact (transfer_keeps ha hdata hcalled).of_call hkeys haccounts hkeys' haccounts'

lemma invoke_createAccount_keeps (hdistinct : tc.accountKeys.Nodup)
    (hfits : tc.accountKeys.length ≤ maxIndexOfAccount)
    (hkey : ∀ accountMeta, instruction.accounts[1]? = some accountMeta → accountMeta.pubkey = key)
    (h : nativeInvoke tc instruction signers (processCreateAccount systemProgramId lamports space owner) = .ok tc') :
    Keeps x tc tc' ∧ tc.accountKeys[x]? ≠ some key := by
  obtain ⟨pushed, called, callee, hkeys, haccounts, hcallee, hpositions, hcalled, hkeys',
    haccounts'⟩ := nativeInvoke_eq_ok h
  obtain ⟨ctx, hctx, hcalled⟩ := bind_eq_ok.1 hcalled
  obtain rfl := Except.ok.inj (hctx.symm.trans hcallee)
  obtain ⟨_, -, hcalled⟩ := bind_eq_ok.1 hcalled
  have hcalled := rest_eq_ok hcalled
  obtain ⟨address, haddress, hcalled⟩ := bind_eq_ok.1 hcalled
  rw [← haccounts] at ha
  obtain ⟨hkeeps, hne⟩ := createAccount_keeps ha hdata hcalled
  constructor
  · exact hkeeps.of_call hkeys haccounts hkeys' haccounts'
  · intro hx
    obtain ⟨i, hi, -⟩ := bind_eq_ok.1 haddress
    obtain ⟨b, hb, hindex⟩ := bind_eq_ok.1 hi
    obtain ⟨accountMeta, hmeta, hfound⟩ := hpositions 1 b (okOr_eq_ok.1 hb)
    rw [hkey accountMeta hmeta] at hfound
    rw [hi, ← Except.ok.inj hindex, findIndexOfAccount_eq_some hdistinct hfits hx hfound] at hne
    exact hne rfl

end

end Nuah.Proofs
