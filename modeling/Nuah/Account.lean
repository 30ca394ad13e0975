import Nuah.Primitives

/-!
# Accounts and borrowed accounts

An account, and what an instruction may do to one it has borrowed (`BorrowedAccount` in
`sdk/src/transaction_context.rs`). The data of an account is a type parameter.
-/

namespace Nuah

inductive StakeError where
  | noCreditsToRedeem
  | lockupInForce
  | alreadyDeactivated
  | tooSoonToRedelegate
  | insufficientStake
  | mergeTransientStake
  | mergeMismatch
  | insufficientDelegation
  | redelegateTransientOrInactiveStake
  | redelegateToSameVoteAccount
  | redelegatedStakeMustFullyActivateBeforeDeactivationIsPermitted
deriving Repr, DecidableEq

inductive SystemError where
  | accountAlreadyInUse
  | resultWithNegativeLamports
  | invalidAccountDataLength
deriving Repr, DecidableEq

inductive InstructionError where
  | invalidArgument
  | invalidInstructionData
  | invalidAccountData
  | accountDataTooSmall
  | insufficientFunds
  | incorrectProgramId
  | missingRequiredSignature
  | accountAlreadyInitialized
  | unbalancedInstruction
  | modifiedProgramId
  | externalAccountLamportSpend
  | externalAccountDataModified
  | readonlyLamportChange
  | readonlyDataModified
  | executableModified
  | notEnoughAccountKeys
  | accountDataSizeChanged
  | accountNotExecutable
  | accountBorrowFailed
  | accountBorrowOutstanding
  | executableDataModified
  | executableLamportChange
  | executableAccountNotRentExempt
  | callDepth
  | missingAccount
  | maxInstructionTraceLengthExceeded
  | maxAccountsDataAllocationsExceeded
  | invalidRealloc
  | privilegeEscalation
  | arithmeticOverflow
  | invalidAccountOwner
  | unsupportedProgramId
  | reentrancyNotAllowed
  | immutable
  | incorrectAuthority
  | stake (e : StakeError)
  | system (e : SystemError)
deriving Repr, DecidableEq

abbrev InstructionResult := Except (Fault InstructionError)

def reject {α : Type} (e : InstructionError) : InstructionResult α := .error (.err e)

/-- `ok_or` of the source. -/
def okOr {α : Type} (e : InstructionError) : Option α → InstructionResult α
  | some a => .ok a
  | none => reject e

lemma okOr_eq_ok {α : Type} {e : InstructionError} {o : Option α} {a : α} :
    okOr e o = .ok a ↔ o = some a := by
  cases o <;> simp [okOr, reject]

lemma ite_reject_eq_ok {α : Type} {e : InstructionError} {c : Prop} [Decidable c]
    {x : InstructionResult α} {a : α} : (if c then reject e else x) = .ok a ↔ ¬ c ∧ x = .ok a :=
  ite_error_eq_ok

/-- The rent, by the balance that exempts an account with data of the given length. -/
structure Rent where
  minimumBalance : Nat → Nat

def Rent.isExempt (rent : Rent) (balance dataLen : Nat) : Bool :=
  decide (rent.minimumBalance dataLen ≤ balance)

structure Account (δ : Type) where
  lamports : Nat
  data : δ
  owner : Pubkey
  executable : Bool
  rentEpoch : Epoch
deriving Repr, DecidableEq

/-- An account as an instruction sees it: with the key of the last program of the current
instruction, and whether the instruction may write to the account. -/
structure BorrowedAccount (δ : Type) where
  account : Account δ
  lastProgramKey : Option Pubkey
  isWritable : Bool
deriving Repr, DecidableEq

namespace BorrowedAccount

variable {δ : Type} {b b' : BorrowedAccount δ} {lamports : Nat}

def isOwnedByCurrentProgram (b : BorrowedAccount δ) : Bool :=
  b.lastProgramKey == some b.account.owner

def setLamports (b : BorrowedAccount δ) (lamports : Nat) :
    InstructionResult (BorrowedAccount δ) :=
  if !b.isOwnedByCurrentProgram && lamports < b.account.lamports then
    reject .externalAccountLamportSpend
  else if !b.isWritable then reject .readonlyLamportChange
  else if b.account.executable then reject .executableLamportChange
  else .ok { b with account := { b.account with lamports := lamports } }

def checkedAddLamports (b : BorrowedAccount δ) (lamports : Nat) :
    InstructionResult (BorrowedAccount δ) := do
  let total ← okOr .arithmeticOverflow (checkedAddU64 b.account.lamports lamports)
  b.setLamports total

def checkedSubLamports (b : BorrowedAccount δ) (lamports : Nat) :
    InstructionResult (BorrowedAccount δ) := do
  let rest ← okOr .arithmeticOverflow (checkedSub b.account.lamports lamports)
  b.setLamports rest

/-- Only the owner changes the data of an account, and only of a writable one that is not
executable. -/
def canDataBeChanged (b : BorrowedAccount δ) : InstructionResult Unit :=
  if b.account.executable then reject .executableDataModified
  else if !b.isWritable then reject .readonlyDataModified
  else if !b.isOwnedByCurrentProgram then reject .externalAccountDataModified
  else .ok ()

lemma setLamports_eq_ok (h : b.setLamports lamports = .ok b') :
    b' = { b with account := { b.account with lamports := lamports } } ∧
      b.isWritable = true ∧ b.account.executable = false ∧
      (b.account.lamports ≤ lamports ∨ b.isOwnedByCurrentProgram = true) := by
  obtain ⟨hspend, h⟩ := ite_error_eq_ok.1 h
  obtain ⟨hw, h⟩ := ite_error_eq_ok.1 h
  obtain ⟨hx, h⟩ := ite_error_eq_ok.1 h
  cases h
  simp only [Bool.and_eq_true, Bool.not_eq_true', decide_eq_true_eq, not_and_or,
    Bool.not_eq_false, not_lt] at hspend hw hx
  exact ⟨rfl, hw, by simpa using hx, hspend.symm⟩

lemma checkedAddLamports_eq_ok (h : b.checkedAddLamports lamports = .ok b') :
    b.account.lamports + lamports ≤ u64Max ∧ b.isWritable = true ∧
      b' = { b with account := { b.account with lamports := b.account.lamports + lamports } } := by
  obtain ⟨total, htotal, hset⟩ := bind_eq_ok.1 h
  obtain ⟨hle, rfl⟩ := checkedAddU64_eq_some.1 (okOr_eq_ok.1 htotal)
  obtain ⟨hb', hw, -, -⟩ := setLamports_eq_ok hset
  exact ⟨hle, hw, hb'⟩

lemma checkedSubLamports_eq_ok (h : b.checkedSubLamports lamports = .ok b') :
    lamports ≤ b.account.lamports ∧ b.isWritable = true ∧
      b' = { b with account := { b.account with lamports := b.account.lamports - lamports } } := by
  obtain ⟨rest, hrest, hset⟩ := bind_eq_ok.1 h
  obtain ⟨hle, rfl⟩ := checkedSub_eq_some.1 (okOr_eq_ok.1 hrest)
  obtain ⟨hb', hw, -, -⟩ := setLamports_eq_ok hset
  exact ⟨hle, hw, hb'⟩

lemma canDataBeChanged_eq_ok (h : b.canDataBeChanged = .ok ()) :
    b.account.executable = false ∧ b.isWritable = true ∧ b.isOwnedByCurrentProgram = true := by
  obtain ⟨hexecutable, h⟩ := ite_error_eq_ok.1 h
  obtain ⟨hw, h⟩ := ite_error_eq_ok.1 h
  obtain ⟨howned, -⟩ := ite_error_eq_ok.1 h
  simp_all

end BorrowedAccount

end Nuah
