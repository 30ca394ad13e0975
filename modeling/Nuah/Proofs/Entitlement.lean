import Nuah.Proofs.CalledAccounts

/-!
# Programs change only what they are entitled to

Whatever programs do in a tree of calls changes only accounts that are writable in the
top-level instruction, takes only from accounts of the executing program, and makes or loses
no lamports.
-/

namespace Nuah.Proofs

open ExceptLoops BorrowedAccount List

variable {rent : Rent} {m : Mutator} {changes changes' : List Change}
  {instructionAccounts : List InstructionAccount} {programAccounts : List Nat}

/-- Lamports, data and ownership are taken from an account only by its owner. -/
def Entitled (programKey : Option Pubkey) (before after : Account Bytes) : Prop :=
  after.lamports < before.lamports ∨ after.data ≠ before.data ∨ after.owner ≠ before.owner →
    programKey = some before.owner

def Change.Entitled (c : Change) : Prop := Proofs.Entitled c.programKey c.before c.after

variable {b b' : BorrowedAccount Bytes}

lemma entitled_of_owned (h : b.isOwnedByCurrentProgram = true) (after : Account Bytes) :
    Entitled b.lastProgramKey b.account after :=
  fun _ => beq_iff_eq.1 h

lemma setLamports_entitled {lamports : Nat} (h : b.setLamports lamports = .ok b') :
    b.isWritable = true ∧ Entitled b.lastProgramKey b.account b'.account := by
  obtain ⟨rfl, hw, -, hspend⟩ := setLamports_eq_ok h
  refine ⟨hw, ?_⟩
  rcases hspend with hle | howned
  · rintro (hlt | hdata | howner)
    · exact absurd hlt (not_lt.2 hle)
    · exact absurd rfl hdata
    · exact absurd rfl howner
  · exact entitled_of_owned howned _

lemma canDataBeChanged_entitled (h : b.canDataBeChanged = .ok ()) (after : Account Bytes) :
    b.isWritable = true ∧ Entitled b.lastProgramKey b.account after := by
  obtain ⟨-, hw, howned⟩ := canDataBeChanged_eq_ok h
  exact ⟨hw, entitled_of_owned howned after⟩

lemma setOwner_entitled {pubkey : Pubkey} (h : b.setOwner pubkey = .ok b') :
    b.isWritable = true ∧ Entitled b.lastProgramKey b.account b'.account := by
  obtain ⟨howned, h⟩ := ite_error_eq_ok.1 h
  obtain ⟨hw, h⟩ := ite_error_eq_ok.1 h
  exact ⟨by simpa using hw, entitled_of_owned (by simpa using howned) _⟩

lemma setExecutable_entitled {flag : Bool} (h : b.setExecutable rent flag = .ok b') :
    b.isWritable = true ∧ Entitled b.lastProgramKey b.account b'.account := by
  obtain ⟨-, h⟩ := ite_error_eq_ok.1 h
  obtain ⟨howned, h⟩ := ite_error_eq_ok.1 h
  obtain ⟨hw, h⟩ := ite_error_eq_ok.1 h
  exact ⟨by simpa using hw, entitled_of_owned (by simpa using howned) _⟩

lemma Mutator.apply_entitled {delta delta' : Int} (h : m.apply rent delta b = .ok (b', delta')) :
    b.isWritable = true ∧ Entitled b.lastProgramKey b.account b'.account := by
  cases m with
  | setOwner pubkey =>
    obtain ⟨_, hb, h⟩ := bind_eq_ok.1 h
    cases h
    exact setOwner_entitled hb
  | setLamports lamports =>
    obtain ⟨_, hb, h⟩ := bind_eq_ok.1 h
    cases h
    exact setLamports_entitled hb
  | checkedAddLamports lamports =>
    obtain ⟨_, hb, h⟩ := bind_eq_ok.1 h
    obtain ⟨_, -, hb⟩ := bind_eq_ok.1 hb
    cases h
    exact setLamports_entitled hb
  | checkedSubLamports lamports =>
    obtain ⟨_, hb, h⟩ := bind_eq_ok.1 h
    obtain ⟨_, -, hb⟩ := bind_eq_ok.1 hb
    cases h
    exact setLamports_entitled hb
  | setDataFromSlice data =>
    have h := rest_eq_ok h
    obtain ⟨_, hchange, -⟩ := bind_eq_ok.1 h
    exact canDataBeChanged_entitled hchange _
  | setDataLength newLength =>
    have h := rest_eq_ok h
    obtain ⟨_, hchange, -⟩ := bind_eq_ok.1 h
    exact canDataBeChanged_entitled hchange _
  | extendFromSlice data =>
    have h := rest_eq_ok h
    obtain ⟨_, hchange, -⟩ := bind_eq_ok.1 h
    exact canDataBeChanged_entitled hchange _
  | writeDataMut bytes =>
    obtain ⟨_, hb, -⟩ := bind_eq_ok.1 h
    obtain ⟨_, hchange, -⟩ := bind_eq_ok.1 hb
    exact canDataBeChanged_entitled hchange _
  | setExecutable flag =>
    obtain ⟨_, hb, h⟩ := bind_eq_ok.1 h
    cases h
    exact setExecutable_entitled hb

/-- The changes lead from the accounts to the accounts after them, each made to the account
as it was then. -/
def Replays : List (Account Bytes) → List Change → List (Account Bytes) → Prop
  | accounts, [], accounts' => accounts' = accounts
  | accounts, c :: changes, accounts' => accounts[c.index]? = some c.before ∧
      Replays (accounts.set c.index c.after) changes accounts'

lemma Replays.append {accounts mid accounts' : List (Account Bytes)}
    (h : Replays accounts changes mid) (h' : Replays mid changes' accounts') :
    Replays accounts (changes ++ changes') accounts' := by
  induction changes generalizing accounts with
  | nil =>
    cases h
    exact h'
  | cons c changes ih => exact ⟨h.1, ih h.2⟩

/-- What a program has done to the transaction while its instruction had the given accounts. -/
structure Confined (instructionAccounts : List InstructionAccount) (tc tc' : TransactionContext)
    (changes : List Change) : Prop where
  keys_eq : tc'.accountKeys = tc.accountKeys
  stack_eq : tc'.instructionStack = tc.instructionStack
  length_eq : tc'.accounts.length = tc.accounts.length
  unchanged : ∀ i, ¬ Writable instructionAccounts i → tc'.accounts[i]? = tc.accounts[i]?
  replays : Replays tc.accounts changes tc'.accounts
  entitled : ∀ c ∈ changes, Change.Entitled c

variable {tc tc' : TransactionContext} {ctx : InstructionContext}

lemma Confined.refl (instructionAccounts : List InstructionAccount) (tc : TransactionContext) :
    Confined instructionAccounts tc tc [] :=
  ⟨rfl, rfl, rfl, fun _ _ => rfl, rfl, by simp⟩

lemma Confined.trans {mid : TransactionContext} (h : Confined instructionAccounts tc mid changes)
    (h' : Confined instructionAccounts mid tc' changes') :
    Confined instructionAccounts tc tc' (changes ++ changes') where
  keys_eq := h'.keys_eq.trans h.keys_eq
  stack_eq := h'.stack_eq.trans h.stack_eq
  length_eq := h'.length_eq.trans h.length_eq
  unchanged i hi := (h'.unchanged i hi).trans (h.unchanged i hi)
  replays := h.replays.append h'.replays
  entitled := forall_mem_append.2 ⟨h.entitled, h'.entitled⟩

lemma mutateAccount_confined (hcurrent : tc.instructionStack.head? = some ctx)
    (hfits : FitsIndices ctx.programAccounts ctx.instructionAccounts) {target : AccountTarget}
    {c : Change} (h : mutateAccount tc target m = .ok (tc', c)) :
    Confined ctx.instructionAccounts tc tc' [c] := by
  obtain ⟨ctx', hctx', h⟩ := bind_eq_ok.1 h
  obtain ⟨⟨b, i⟩, hb, h⟩ := bind_eq_ok.1 h
  obtain ⟨⟨b', delta⟩, hb', h⟩ := bind_eq_ok.1 h
  cases h
  cases (okOr_eq_ok.1 hctx').symm.trans hcurrent
  have hborrowed := tryBorrow_eq_ok hfits hb
  obtain ⟨hw, hentitled⟩ := Mutator.apply_entitled hb'
  refine ⟨rfl, rfl, length_set, ?_, ⟨hborrowed.account_eq, rfl⟩, forall_mem_singleton.2 hentitled⟩
  intro k hk
  have hne : i ≠ k := by
    rintro rfl
    exact hk (hborrowed.writable hw)
  exact getElem?_set_ne hne

lemma push_eq_ok (h : InvokeContext.push tc programAccounts instructionAccounts = .ok tc') :
    ∃ sum, tc.instructionAccountsLamportSum ⟨0, programAccounts, instructionAccounts⟩ = .ok sum ∧
      tc'.accountKeys = tc.accountKeys ∧ tc'.accounts = tc.accounts ∧
      tc'.instructionStack = ⟨sum, programAccounts, instructionAccounts⟩ :: tc.instructionStack := by
  obtain ⟨_, -, h⟩ := bind_eq_ok.1 h
  obtain ⟨-, h⟩ := ite_error_eq_ok.1 h
  obtain ⟨sum, hsum, h⟩ := bind_eq_ok.1 h
  have h := rest_eq_ok h
  obtain ⟨-, h⟩ := ite_error_eq_ok.1 h
  obtain ⟨-, h⟩ := ite_error_eq_ok.1 h
  cases h
  exact ⟨sum, hsum, rfl, rfl, rfl⟩

lemma pop_eq_ok (hcurrent : tc.instructionStack.head? = some ctx) (h : tc.pop = .ok tc') :
    tc.instructionAccountsLamportSum ctx = .ok ctx.instructionAccountsLamportSum ∧
      tc'.accountKeys = tc.accountKeys ∧ tc'.accounts = tc.accounts ∧
      tc'.instructionStack = tc.instructionStack.tail := by
  obtain ⟨ctx', hctx', h⟩ := bind_eq_ok.1 h
  cases (okOr_eq_ok.1 hctx').symm.trans hcurrent
  have h := rest_eq_ok h
  obtain ⟨sum, hsum, h⟩ := bind_eq_ok.1 h
  obtain ⟨hbalanced, h⟩ := ite_error_eq_ok.1 h
  cases h
  rw [not_not.1 hbalanced]
  exact ⟨hsum, rfl, rfl, rfl⟩

lemma Confined.mono {callerAccounts : List InstructionAccount}
    (h : Confined instructionAccounts tc tc' changes)
    (hsub : ∀ i, Writable instructionAccounts i → Writable callerAccounts i) :
    Confined callerAccounts tc tc' changes :=
  { h with unchanged := fun i hi => h.unchanged i (fun hw => hi (hsub i hw)) }

section Call

variable {pushed called popped : TransactionContext}

lemma Confined.call (hpush : InvokeContext.push tc programAccounts instructionAccounts = .ok pushed)
    (hrun : Confined instructionAccounts pushed called changes) (hpop : called.pop = .ok popped) :
    Confined instructionAccounts tc popped changes := by
  obtain ⟨sum, -, hkeys, haccounts, hstack⟩ := push_eq_ok hpush
  obtain ⟨-, hkeys', haccounts', hstack'⟩ :=
    pop_eq_ok (congrArg head? (hrun.stack_eq.trans hstack)) hpop
  constructor
  · rw [hkeys', hrun.keys_eq, hkeys]
  · rw [hstack', hrun.stack_eq, hstack, tail_cons]
  · rw [haccounts', hrun.length_eq, haccounts]
  · intro i hi
    rw [haccounts', hrun.unchanged i hi, haccounts]
  · rw [haccounts', ← haccounts]
    exact hrun.replays
  · exact hrun.entitled

/-- A call that is balanced moves lamports only between the accounts it can write to, so
their total over the transaction stays the same. -/
lemma Confined.call_totalLamports (hdedup : Deduplicated instructionAccounts)
    (hfits : FitsIndices programAccounts instructionAccounts)
    (hpush : InvokeContext.push tc programAccounts instructionAccounts = .ok pushed)
    (hrun : Confined instructionAccounts pushed called changes) (hpop : called.pop = .ok popped) :
    totalLamports popped.accounts = totalLamports tc.accounts := by
  have hlength : instructionAccounts.length ≤ maxIndexOfAccount :=
    le_trans (Nat.le_add_left _ _) hfits
  have hconfined := Confined.call hpush hrun hpop
  obtain ⟨sum, hsum, -, -, hstack⟩ := push_eq_ok hpush
  obtain ⟨hbalanced, -, haccounts', -⟩ :=
    pop_eq_ok (congrArg head? (hrun.stack_eq.trans hstack)) hpop
  have hbefore := instructionAccountsLamportSum_eq_ok hdedup hlength hsum
  have hafter := instructionAccountsLamportSum_eq_ok hdedup hlength hbalanced
  apply totalLamports_eq_of_sum_eq (accountIndices instructionAccounts) hconfined.length_eq
  · intro i hi
    unfold lamportsAt
    rw [hconfined.unchanged i]
    rintro ⟨a, ha, hidx, -⟩
    exact hi (mem_accountIndices.2 ⟨a, ha, hidx⟩)
  · rw [haccounts', ← hbefore, ← hafter]

end Call

/-- The instructions that a program calls have few enough accounts for their positions to
fit into a machine word, with one left for the program. -/
def BehaviourFits : Behaviour → Prop
  | .done => True
  | .mutate _ _ rest => BehaviourFits rest
  | .invoke instruction _ callee rest =>
    instruction.accounts.length < maxIndexOfAccount ∧ BehaviourFits callee ∧ BehaviourFits rest

/-- The induction over the calls: a program stays within its instruction. -/
theorem runBehaviour_confined {program : Behaviour} (hprogram : BehaviourFits program)
    (hfirst : FirstWithKey tc.accountKeys ctx.instructionAccounts)
    (hlen : tc.accountKeys.length ≤ maxIndexOfAccount + 1)
    (hcurrent : tc.instructionStack.head? = some ctx)
    (hfits : FitsIndices ctx.programAccounts ctx.instructionAccounts)
    (h : runBehaviour program tc = .ok (tc', changes)) :
    Confined ctx.instructionAccounts tc tc' changes := by
  induction program generalizing tc tc' ctx changes with
  | done =>
    cases h
    exact Confined.refl _ _
  | mutate target m rest ih =>
    unfold runBehaviour at h
    split at h
    · rename_i mid c hmutate
      have hstep := mutateAccount_confined hcurrent hfits hmutate
      obtain ⟨⟨tc₁, changes₁⟩, hrest, h⟩ := bind_eq_ok.1 h
      cases h
      refine hstep.trans (ih hprogram ?_ ?_ ?_ hfits hrest)
      · rwa [hstep.keys_eq]
      · rwa [hstep.keys_eq]
      · rwa [hstep.stack_eq]
    · exact ih hprogram hfirst hlen hcurrent hfits h
  | invoke instruction signers callee rest ihcallee ihrest =>
    obtain ⟨hmetas, hcallee, hrest⟩ := hprogram
    unfold runBehaviour at h
    split at h
    · rename_i instructionAccounts programIndices hprepare
      obtain ⟨-, hcalleeFits, hcalleeFirst, hsub⟩ :=
        prepareInstruction_eq_ok hfirst hlen hcurrent hfits hmetas hprepare
      obtain ⟨pushed, hpush, h⟩ := bind_eq_ok.1 h
      obtain ⟨⟨called, changes₁⟩, hcalled, h⟩ := bind_eq_ok.1 h
      obtain ⟨popped, hpop, h⟩ := bind_eq_ok.1 h
      obtain ⟨⟨tc₁, changes₂⟩, hrestRun, h⟩ := bind_eq_ok.1 h
      cases h
      obtain ⟨sum, -, hpushedKeys, -, hpushedStack⟩ := push_eq_ok hpush
      have hrun : Confined instructionAccounts pushed called changes₁ :=
        ihcallee hcallee (by rwa [hpushedKeys]) (by rwa [hpushedKeys])
          (congrArg head? hpushedStack) hcalleeFits hcalled
      have hcall := (Confined.call hpush hrun hpop).mono hsub
      refine hcall.trans (ihrest hrest ?_ ?_ ?_ hfits hrestRun)
      · rwa [hcall.keys_eq]
      · rwa [hcall.keys_eq]
      · rwa [hcall.stack_eq]
    · exact ihrest hrest hfirst hlen hcurrent hfits h

/-- A top-level instruction keeps the total of the lamports, leaves alone what is not
writable in it, and every change on the way was one the executing program was entitled to. -/
theorem programs_change_only_entitled (tc tc' : TransactionContext) (message : Message)
    (accounts : List UInt8) (programIndices : List Nat) (program : Behaviour)
    (changes : List Change)
    (hfirst : ∀ x ∈ accounts, ∀ j < x.toNat, tc.accountKeys[j]? ≠ tc.accountKeys[x.toNat]?)
    (hlen : tc.accountKeys.length ≤ maxIndexOfAccount + 1)
    (hfits : programIndices.length + accounts.length ≤ maxIndexOfAccount)
    (hprogram : BehaviourFits program)
    (h : processTopLevelInstruction tc message accounts programIndices program =
      .ok (tc', changes)) :
    totalLamports tc'.accounts = totalLamports tc.accounts ∧
    (∀ i, (∀ x ∈ accounts, x.toNat = i → message.isWritable i = false) →
      tc'.accounts[i]? = tc.accounts[i]?) ∧
    Replays tc.accounts changes tc'.accounts ∧
    ∀ c ∈ changes, c.after.lamports < c.before.lamports ∨ c.after.data ≠ c.before.data ∨
      c.after.owner ≠ c.before.owner → c.programKey = some c.before.owner := by
  have hlength : accounts.length ≤ maxIndexOfAccount := le_trans (Nat.le_add_left _ _) hfits
  have htopFits : FitsIndices programIndices (topLevelInstructionAccounts message accounts) := by
    simpa [FitsIndices, topLevelInstructionAccounts] using hfits
  obtain ⟨pushed, hpush, h⟩ := bind_eq_ok.1 h
  obtain ⟨⟨called, changes'⟩, hcalled, h⟩ := bind_eq_ok.1 h
  obtain ⟨popped, hpop, h⟩ := bind_eq_ok.1 h
  cases h
  obtain ⟨sum, -, hpushedKeys, -, hpushedStack⟩ := push_eq_ok hpush
  have htopFirst : FirstWithKey pushed.accountKeys (topLevelInstructionAccounts message accounts) := by
    rw [hpushedKeys]
    exact topLevelInstructionAccounts_firstWithKey hlength hfirst
  have hrun := runBehaviour_confined hprogram htopFirst (by rwa [hpushedKeys])
    (congrArg head? hpushedStack) htopFits hcalled
  have hcall := Confined.call hpush hrun hpop
  refine ⟨?_, fun i hi => hcall.unchanged i ?_, hcall.replays, hcall.entitled⟩
  · exact Confined.call_totalLamports (topLevelInstructionAccounts_deduplicated hlength) htopFits
      hpush hrun hpop
  · rintro ⟨a, ha, rfl, hw⟩
    obtain ⟨x, hx, hidx, -, hwritable⟩ := mem_topLevelInstructionAccounts hlength ha
    rw [hidx] at hi
    rw [hwritable, hi x hx rfl] at hw
    cases hw

/-! A program with key 20 that owns an account, and calls another program with key 21. -/

def programAccount : Account Bytes := ⟨100, [], 0, true, 0⟩

def transactionOf (keys : List Pubkey) (accounts : List (Account Bytes)) : TransactionContext :=
  ⟨keys, accounts, 5, 64, [], 0, 0, ⟨fun _ => 1⟩⟩

def callingTransaction : TransactionContext :=
  transactionOf [10, 11, 20, 21]
    [⟨100, [], 20, false, 0⟩, ⟨5, [], 21, false, 0⟩, programAccount, programAccount]

def everythingWritable : Message := ⟨fun _ => false, fun _ => true⟩

/-- Pays the other program, which pays some of it back. -/
def callingProgram : Behaviour :=
  .mutate (.instructionAccount 0) (.checkedSubLamports 30) <|
  .mutate (.instructionAccount 1) (.checkedAddLamports 30) <|
  .invoke ⟨21, [⟨11, false, true⟩, ⟨10, false, true⟩, ⟨11, false, false⟩]⟩ []
    (.mutate (.instructionAccount 0) (.checkedSubLamports 7) <|
      .mutate (.instructionAccount 1) (.checkedAddLamports 7) <|
      .mutate (.instructionAccount 1) (.setDataFromSlice [1]) .done)
    .done

theorem callingProgram_entitled : ∃ tc' changes,
    processTopLevelInstruction callingTransaction everythingWritable [0, 1, 3, 0] [2]
      callingProgram = .ok (tc', changes) ∧
    changes.length = 4 ∧ totalLamports tc'.accounts = 305 := by
  refine ⟨_, _, rfl, rfl, ?_⟩
  exact (programs_change_only_entitled callingTransaction _ everythingWritable [0, 1, 3, 0] [2]
    callingProgram _ (by decide +kernel) (by decide) (by decide)
    ⟨by decide, trivial, trivial⟩ rfl).1

/-- With two accounts under one key, a call reaches the one that the top-level instruction
does not name, and lamports are made. -/
def duplicateKeyTransaction : TransactionContext :=
  transactionOf [10, 10, 20, 11]
    [⟨10, [], 20, false, 0⟩, ⟨10, [], 20, false, 0⟩, programAccount, ⟨10, [], 20, false, 0⟩]

def mintingProgram : Behaviour :=
  .invoke ⟨20, [⟨10, false, true⟩, ⟨11, false, true⟩]⟩ []
    (.mutate (.instructionAccount 1) (.checkedSubLamports 10) <|
      .mutate (.instructionAccount 0) (.checkedAddLamports 10) .done) <|
  .mutate (.instructionAccount 1) (.checkedAddLamports 10) .done

theorem mintingProgram_unentitled : ∃ tc' changes,
    processTopLevelInstruction duplicateKeyTransaction everythingWritable [1, 3, 2] [2]
      mintingProgram = .ok (tc', changes) ∧
    totalLamports tc'.accounts = totalLamports duplicateKeyTransaction.accounts + 10 ∧
    tc'.accounts[0]? ≠ duplicateKeyTransaction.accounts[0]? := by
  refine ⟨_, _, rfl, ?_, ?_⟩
  · decide
  · decide

end Nuah.Proofs
