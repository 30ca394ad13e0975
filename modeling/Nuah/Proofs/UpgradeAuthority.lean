import Nuah.Proofs.LoaderEffects

/-!
# Programs change only with their authority

Over any run of calls of the upgradeable loader, program data changes only as the recorded
authority has signed, save that anyone can have it extended by zeros.
-/

namespace Nuah.Proofs

open ExceptLoops ByteStrings UpgradeableLoaderState LoaderCall

variable {slot : Slot} {authority : Option Pubkey} {calls : List LoaderCall}

variable {cfg : LoaderConfig} {ledger ledger' : AccountLedger} {call : LoaderCall}

variable {address : Pubkey}

def CallSignedBy (call : LoaderCall) (key : Pubkey) : Prop :=
  ∃ instructionAccount ∈ call.context.instructionAccounts, instructionAccount.isSigner = true ∧
    call.accountKeys[instructionAccount.indexInTransaction]? = some key

lemma run_change (h : call.run cfg ledger = .ok ledger') (key : Pubkey) :
    AccountChange cfg call.clockSlot call.context (call.transactionContext ledger) (ledger key)
      (ledger' key) call.instruction := by
  obtain ⟨tc', hprocess, h⟩ := bind_eq_ok.1 h
  cases h
  have hchanges : Changes cfg call.clockSlot call.context (call.transactionContext ledger) tc'
      call.instruction :=
    processInstruction_changes rfl call.distinct call.fits hprocess
  unfold storeAccounts
  split_ifs with hkey
  · have hlt := List.idxOf_lt_length_iff.2 hkey
    have hbefore : (call.transactionContext ledger).accounts[call.accountKeys.idxOf key]? =
        some (ledger key) := by
      change (call.accountKeys.map ledger)[_]? = _
      rw [List.getElem?_map, List.getElem?_eq_getElem hlt, List.getElem_idxOf hlt]
      rfl
    cases hafter : tc'.accounts[call.accountKeys.idxOf key]? with
    | none => exact .kept (Kept.refl _)
    | some a' => exact hchanges _ _ _ hbefore hafter
  · exact .kept (Kept.refl _)

variable {key : Pubkey}

section

variable (h : call.run cfg ledger = .ok ledger')

include h

lemma program_data_run (hstate : deserialize (ledger key).data = some (.program address)) :
    (ledger' key).data = (ledger key).data := by
  cases run_change h key with
  | kept hkept => exact hkept.1
  | withoutData hnil => exact absurd hnil (deserialize_ne_nil hstate)
  | initialized hfresh _ => cases hfresh.symm.trans hstate
  | uninitializedClosed hfresh _ => cases hfresh.symm.trans hstate
  | buffer authority hbuffer => cases hbuffer.symm.trans hstate
  | programData slot authority hprogramdata _ => cases hprogramdata.symm.trans hstate

lemma programData_run
    (hstate : deserialize (ledger key).data = some (.programData slot authority)) :
    Kept (ledger key) (ledger' key) ∨
      ProgramDataChange cfg call.clockSlot call.context (call.transactionContext ledger) slot
        authority (ledger key) (ledger' key) call.instruction := by
  cases run_change h key with
  | kept hkept => exact .inl hkept
  | withoutData hnil => exact absurd hnil (deserialize_ne_nil hstate)
  | initialized hfresh _ => cases hfresh.symm.trans hstate
  | uninitializedClosed hfresh _ => cases hfresh.symm.trans hstate
  | buffer authority' hbuffer => cases hbuffer.symm.trans hstate
  | programData slot' authority' hprogramdata hchange =>
    obtain ⟨rfl, rfl⟩ := UpgradeableLoaderState.programData.inj
      (Option.mem_unique hprogramdata hstate)
    exact .inr hchange

lemma closed_run (hclosed : (ledger key).data = serialize .uninitialized) :
    (ledger' key).data = serialize .uninitialized := by
  have hstate : deserialize (ledger key).data = some .uninitialized := by
    rw [hclosed]
    rfl
  cases run_change h key with
  | kept hkept => exact hkept.1.trans hclosed
  | withoutData hnil => exact absurd hnil (deserialize_ne_nil hstate)
  | initialized _ hlength =>
    rw [hclosed] at hlength
    exact absurd hlength (by decide)
  | uninitializedClosed _ hdata =>
    rw [hdata, hclosed]
    rfl
  | buffer authority hbuffer => cases hbuffer.symm.trans hstate
  | programData slot authority hprogramdata _ => cases hprogramdata.symm.trans hstate

lemma immutable_run (hstate : deserialize (ledger key).data = some (.programData slot none)) :
    Kept (ledger key) (ledger' key) := by
  rcases programData_run h hstate with hkept | hchange
  · exact hkept
  · generalize call.instruction = instruction at hchange
    cases hchange with
    | upgraded key contents hauthority => cases hauthority
    | extended additionalBytes hauthority => exact absurd rfl hauthority
    | authoritySet key newAuthority instruction _ hauthority => cases hauthority
    | closed key hauthority => cases hauthority

end

/-- Program data, or what is left of it. -/
def ProgramDataOrClosed (a : Account Bytes) : Prop :=
  (∃ slot authority, deserialize a.data = some (.programData slot authority)) ∨
    a.data = serialize .uninitialized

lemma programDataOrClosed_run (h : call.run cfg ledger = .ok ledger')
    (hbefore : ProgramDataOrClosed (ledger key)) : ProgramDataOrClosed (ledger' key) := by
  rcases hbefore with ⟨slot, authority, hstate⟩ | hclosed
  · rcases programData_run h hstate with hkept | hchange
    · exact .inl ⟨slot, authority, hkept.1 ▸ hstate⟩
    · generalize call.instruction = instruction at hchange
      cases hchange with
      | upgraded key contents _ _ _ _ _ hstate' => exact .inl ⟨_, _, hstate'⟩
      | extended additionalBytes _ _ hstate' => exact .inl ⟨_, _, hstate'⟩
      | authoritySet key newAuthority instruction _ _ _ _ hstate' => exact .inl ⟨_, _, hstate'⟩
      | closed key _ _ hdata => exact .inr hdata
  · exact .inr (closed_run h hclosed)

lemma runAll_induction {P : AccountLedger → Prop}
    (hstep : ∀ ledger call ledger', P ledger → run cfg ledger call = .ok ledger' → P ledger')
    (hstart : P ledger) (h : runAll cfg calls ledger = .ok ledger') : P ledger' := by
  refine SatisfiesM_Except_eq.1 (List.satisfiesM_foldlM hstart fun next hnext call _ => ?_) ledger' h
  exact SatisfiesM_Except_eq.2 fun next' => hstep next call next' hnext

section

variable (h : runAll cfg calls ledger = .ok ledger')

include h

lemma program_data_runAll (hstate : deserialize (ledger key).data = some (.program address)) :
    (ledger' key).data = (ledger key).data := by
  refine runAll_induction (P := fun l => (l key).data = (ledger key).data) ?_ rfl h
  intro l call l' hl hrun
  exact (program_data_run hrun (hl ▸ hstate)).trans hl

lemma immutable_runAll (hstate : deserialize (ledger key).data = some (.programData slot none)) :
    Kept (ledger key) (ledger' key) := by
  refine runAll_induction (P := fun l => Kept (ledger key) (l key)) ?_ (Kept.refl _) h
  intro l call l' hl hrun
  exact hl.trans (immutable_run hrun (hl.1 ▸ hstate))

lemma closed_runAll (hclosed : (ledger key).data = serialize .uninitialized) :
    (ledger' key).data = serialize .uninitialized := by
  refine runAll_induction (P := fun l => (l key).data = serialize .uninitialized) ?_ hclosed h
  exact fun l call l' hl hrun => closed_run hrun hl

end

/-- How a call may change the program that program data with an authority holds. -/
def BytesChange (cfg : LoaderConfig) (call : LoaderCall) (ledger : AccountLedger)
    (authority : Option Pubkey) (before after : Bytes) : Prop :=
  (∃ key contents, call.instruction = .upgrade ∧ authority = some key ∧ CallSignedBy call key ∧
    VerifiedContents cfg (call.transactionContext ledger) contents ∧
    contents.length ≤ before.length ∧
    after = contents ++ List.replicate (before.length - contents.length) 0) ∨
  (∃ additionalBytes, call.instruction = .extendProgram additionalBytes ∧
    after = before ++ List.replicate additionalBytes 0) ∨
  ∃ key, call.instruction = .close ∧ authority = some key ∧ CallSignedBy call key

/-- How a call may change the authority of program data. -/
def AuthorityChange (call : LoaderCall) (authority : Option Pubkey) : Prop :=
  (call.instruction = .setAuthority ∨ call.instruction = .setAuthorityChecked) ∧
    ∃ key, authority = some key ∧ CallSignedBy call key

lemma bytesChange_of_run (h : call.run cfg ledger = .ok ledger')
    (hstate : deserialize (ledger key).data = some (.programData slot authority))
    (hne : programBytes (ledger' key) ≠ programBytes (ledger key)) :
    BytesChange cfg call ledger authority (programBytes (ledger key))
      (programBytes (ledger' key)) := by
  rcases programData_run h hstate with hkept | hchange
  · exact absurd (congrArg (List.drop sizeOfProgramdataMetadata) hkept.1) hne
  · generalize hinstruction : call.instruction = instruction at hchange
    cases hchange with
    | upgraded key contents hauthority hsigned hverified hfits hbytes =>
      exact .inl ⟨key, contents, hinstruction, hauthority, hsigned, hverified, hfits, hbytes⟩
    | extended additionalBytes _ hbytes =>
      exact .inr (.inl ⟨additionalBytes, hinstruction, hbytes⟩)
    | authoritySet key newAuthority instruction _ _ _ hbytes => exact absurd hbytes hne
    | closed key hauthority hsigned =>
      exact .inr (.inr ⟨key, hinstruction, hauthority, hsigned⟩)

lemma authorityChange_of_run {slot' : Slot} {authority' : Option Pubkey}
    (h : call.run cfg ledger = .ok ledger')
    (hstate : deserialize (ledger key).data = some (.programData slot authority))
    (hstate' : deserialize (ledger' key).data = some (.programData slot' authority'))
    (hne : authority' ≠ authority) : AuthorityChange call authority := by
  have hsame : ∀ {s}, deserialize (ledger' key).data = some (.programData s authority) → False := by
    intro s hs
    exact hne (UpgradeableLoaderState.programData.inj (Option.mem_unique hstate' hs)).2
  rcases programData_run h hstate with hkept | hchange
  · exact (hsame (hkept.1 ▸ hstate)).elim
  · generalize hinstruction : call.instruction = instruction at hchange
    cases hchange with
    | upgraded key contents _ _ _ _ _ hs => exact (hsame hs).elim
    | extended additionalBytes _ _ hs => exact (hsame hs).elim
    | authoritySet key newAuthority instruction hset hauthority hsigned =>
      exact ⟨hinstruction ▸ hset, key, hauthority, hsigned⟩
    | closed key _ _ hdata =>
      rw [hdata] at hstate'
      cases hstate'

/-- In every run of calls the data of the program never changes, the bytes and the authority of its
program data change only as said, and program data without an authority, or closed, stays what it
is. -/
theorem program_changes_only_with_authority (cfg : LoaderConfig) (ledger : AccountLedger)
    (programKey programdataKey : Pubkey) (slot : Slot) (authority : Option Pubkey)
    (hprogram : deserialize (ledger programKey).data = some (.program programdataKey))
    (hprogramdata : deserialize (ledger programdataKey).data = some (.programData slot authority))
    (calls : List LoaderCall) (reached : AccountLedger)
    (hreached : runAll cfg calls ledger = .ok reached) :
    (reached programKey).data = (ledger programKey).data ∧
    ProgramDataOrClosed (reached programdataKey) ∧
    (∀ slot₁ authority₁ call next, call.run cfg reached = .ok next →
      deserialize (reached programdataKey).data = some (.programData slot₁ authority₁) →
      (programBytes (next programdataKey) ≠ programBytes (reached programdataKey) →
        BytesChange cfg call reached authority₁ (programBytes (reached programdataKey))
          (programBytes (next programdataKey))) ∧
      (∀ slot₂ authority₂,
        deserialize (next programdataKey).data = some (.programData slot₂ authority₂) →
        authority₂ ≠ authority₁ → AuthorityChange call authority₁)) ∧
    (∀ later final, runAll cfg later reached = .ok final →
      (∀ slot₁, deserialize (reached programdataKey).data = some (.programData slot₁ none) →
        (final programdataKey).data = (reached programdataKey).data ∧
          (reached programdataKey).lamports ≤ (final programdataKey).lamports) ∧
      ((reached programdataKey).data = serialize .uninitialized →
        (final programdataKey).data = serialize .uninitialized)) := by
  refine ⟨program_data_runAll hreached hprogram, ?_, ?_, ?_⟩
  · refine runAll_induction (P := fun l => ProgramDataOrClosed (l programdataKey)) ?_
      (.inl ⟨slot, authority, hprogramdata⟩) hreached
    exact fun l call l' hl hrun => programDataOrClosed_run hrun hl
  · intro slot₁ authority₁ call next hrun hstate
    exact ⟨bytesChange_of_run hrun hstate,
      fun slot₂ authority₂ hstate' hne => authorityChange_of_run hrun hstate hstate' hne⟩
  · intro later final hfinal
    exact ⟨fun slot₁ hstate => immutable_runAll hfinal hstate, closed_runAll hfinal⟩

/-! A program is upgraded, and then its authority is given up. -/

def upgradedConfig : LoaderConfig where
  systemProgramId := 0
  rentId := 6
  clockId := 7
  programdataAddress := fun key => key + 1
  verify := fun _ => .ok ()
  setAuthorityCheckedActive := true

def upgradedLedger : AccountLedger
  | 2 => ⟨1, serialize (.program 3), 1, true, 0⟩
  | 3 => ⟨1, serialize (.programData 5 (some 8)) ++ [1, 2, 3], 1, false, 0⟩
  | 4 => ⟨1, serialize (.buffer (some 8)) ++ [9, 9], 1, false, 0⟩
  | _ => ⟨1, [], 0, false, 0⟩

/-- A call with the accounts at the given positions, all of them writable, of which the last one
has signed. -/
def signedCall (instruction : UpgradeableLoaderInstruction) (positions : List Nat) : LoaderCall where
  instruction := instruction
  accountKeys := [1, 2, 3, 4, 5, 6, 7, 8]
  distinct := by decide
  fits := by decide
  context := {
    instructionAccountsLamportSum := 0
    programAccounts := [0]
    instructionAccounts := positions.map fun i => ⟨i, i, positions.idxOf i, i == 7, true⟩ }
  callers := []
  instructionStackCapacity := 5
  instructionTraceCapacity := 64
  instructionTraceLength := 1
  accountsResizeDelta := 0
  rent := ⟨fun _ => 1⟩
  clockSlot := 10

def upgradedThenLocked : List LoaderCall :=
  [signedCall .upgrade [2, 1, 3, 4, 5, 6, 7], signedCall .setAuthority [2, 7]]

theorem upgradedThenLocked_program_kept :
    ∃ reached, runAll upgradedConfig upgradedThenLocked upgradedLedger = .ok reached ∧
      deserialize (reached 3).data = some (.programData 10 none) ∧
      programBytes (reached 3) = [9, 9, 0] ∧
      (reached 2).data = (upgradedLedger 2).data ∧
      ∀ later final, runAll upgradedConfig later reached = .ok final →
        (final 3).data = (reached 3).data := by
  have hstates : (runAll upgradedConfig upgradedThenLocked upgradedLedger).toOption.map
      (fun l => (deserialize (l 3).data, programBytes (l 3))) =
      some (some (.programData 10 none), [9, 9, 0]) := by decide +kernel
  cases hrun : runAll upgradedConfig upgradedThenLocked upgradedLedger with
  | error e => rw [hrun] at hstates; cases hstates
  | ok reached =>
    rw [hrun] at hstates
    obtain ⟨hstate, hbytes⟩ := Prod.ext_iff.1 (Option.some.inj hstates)
    have hkept := program_changes_only_with_authority upgradedConfig upgradedLedger 2 3 5 (some 8)
      (by decide +kernel) (by decide +kernel) upgradedThenLocked reached hrun
    refine ⟨reached, rfl, hstate, hbytes, hkept.1, ?_⟩
    exact fun later final hfinal => ((hkept.2.2.2 later final hfinal).1 10 hstate).1

end Nuah.Proofs
