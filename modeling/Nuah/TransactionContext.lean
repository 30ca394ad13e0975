import Nuah.Account

/-!
# Transaction context

The accounts of a transaction and the stack of the instructions that are being processed
(`sdk/src/transaction_context.rs`). `asIndexOfAccount` is the truncating cast to `u16`.
-/

namespace Nuah

abbrev Bytes := List UInt8

def maxIndexOfAccount : Nat := 2 ^ 16 - 1

def asIndexOfAccount (n : Nat) : Nat := n % (maxIndexOfAccount + 1)

def saturatingAddIndex (a b : Nat) : Nat := min (a + b) maxIndexOfAccount

def maxPermittedDataLength : Nat := 10 * 1024 * 1024

def maxPermittedAccountsDataAllocationsPerTransaction : Int := maxPermittedDataLength * 2

def saturatingI64 (x : Int) : Int := max (-2 ^ 63) (min x (2 ^ 63 - 1))

def isZeroed (data : Bytes) : Bool := data.all (· == 0)

namespace BorrowedAccount

def setOwner (b : BorrowedAccount Bytes) (pubkey : Pubkey) :
    InstructionResult (BorrowedAccount Bytes) :=
  if !b.isOwnedByCurrentProgram then reject .modifiedProgramId
  else if !b.isWritable then reject .modifiedProgramId
  else if b.account.executable then reject .modifiedProgramId
  else if !isZeroed b.account.data then reject .modifiedProgramId
  else .ok { b with account := { b.account with owner := pubkey } }

def setExecutable (b : BorrowedAccount Bytes) (rent : Rent) (isExecutable : Bool) :
    InstructionResult (BorrowedAccount Bytes) :=
  if !rent.isExempt b.account.lamports b.account.data.length then
    reject .executableAccountNotRentExempt
  else if !b.isOwnedByCurrentProgram then reject .executableModified
  else if !b.isWritable then reject .executableModified
  else if b.account.executable && !isExecutable then reject .executableModified
  else .ok { b with account := { b.account with executable := isExecutable } }

def canDataBeResized (b : BorrowedAccount Bytes) (accountsResizeDelta : Int) (newLength : Nat) :
    InstructionResult Unit :=
  let oldLength := b.account.data.length
  if newLength ≠ oldLength ∧ !b.isOwnedByCurrentProgram then reject .accountDataSizeChanged
  else if maxPermittedDataLength < newLength then reject .invalidRealloc
  else
    let lengthDelta : Int := saturatingI64 (newLength - oldLength)
    if maxPermittedAccountsDataAllocationsPerTransaction <
        saturatingI64 (accountsResizeDelta + lengthDelta) then
      reject .maxAccountsDataAllocationsExceeded
    else .ok ()

/-- The resize delta of the transaction once the account has data of the new length. -/
def updateAccountsResizeDelta (b : BorrowedAccount Bytes) (accountsResizeDelta : Int)
    (newLen : Nat) : Int :=
  saturatingI64 (accountsResizeDelta + saturatingI64 (newLen - b.account.data.length))

def withData (b : BorrowedAccount Bytes) (data : Bytes) : BorrowedAccount Bytes :=
  { b with account := { b.account with data := data } }

def setDataFromSlice (b : BorrowedAccount Bytes) (delta : Int) (data : Bytes) :
    InstructionResult (BorrowedAccount Bytes × Int) := do
  b.canDataBeResized delta data.length
  b.canDataBeChanged
  .ok (b.withData data, b.updateAccountsResizeDelta delta data.length)

def setDataLength (b : BorrowedAccount Bytes) (delta : Int) (newLength : Nat) :
    InstructionResult (BorrowedAccount Bytes × Int) := do
  b.canDataBeResized delta newLength
  b.canDataBeChanged
  if b.account.data.length = newLength then .ok (b, delta)
  else
    let data := b.account.data.take newLength ++
      List.replicate (newLength - b.account.data.length) 0
    .ok (b.withData data, b.updateAccountsResizeDelta delta newLength)

def extendFromSlice (b : BorrowedAccount Bytes) (delta : Int) (data : Bytes) :
    InstructionResult (BorrowedAccount Bytes × Int) := do
  let newLen := b.account.data.length + data.length
  b.canDataBeResized delta newLen
  b.canDataBeChanged
  if data.isEmpty then .ok (b, delta)
  else .ok (b.withData (b.account.data ++ data), b.updateAccountsResizeDelta delta newLen)

/-- Writing through `get_data_mut`, which gives out the data as a slice: the bytes go over
the first ones of the data and cannot go beyond its end. -/
def writeDataMut (b : BorrowedAccount Bytes) (bytes : Bytes) :
    InstructionResult (BorrowedAccount Bytes) := do
  b.canDataBeChanged
  .ok (b.withData (bytes.take b.account.data.length ++ b.account.data.drop bytes.length))

end BorrowedAccount

/-- The operations with which a program changes an account that it has borrowed. -/
inductive Mutator where
  | setOwner (pubkey : Pubkey)
  | setLamports (lamports : Nat)
  | checkedAddLamports (lamports : Nat)
  | checkedSubLamports (lamports : Nat)
  | setDataFromSlice (data : Bytes)
  | setDataLength (newLength : Nat)
  | extendFromSlice (data : Bytes)
  | writeDataMut (bytes : Bytes)
  | setExecutable (isExecutable : Bool)
deriving Repr, DecidableEq

def Mutator.apply (rent : Rent) (delta : Int) (b : BorrowedAccount Bytes) :
    Mutator → InstructionResult (BorrowedAccount Bytes × Int)
  | .setOwner pubkey => do .ok (← b.setOwner pubkey, delta)
  | .setLamports lamports => do .ok (← b.setLamports lamports, delta)
  | .checkedAddLamports lamports => do .ok (← b.checkedAddLamports lamports, delta)
  | .checkedSubLamports lamports => do .ok (← b.checkedSubLamports lamports, delta)
  | .setDataFromSlice data => b.setDataFromSlice delta data
  | .setDataLength newLength => b.setDataLength delta newLength
  | .extendFromSlice data => b.extendFromSlice delta data
  | .writeDataMut bytes => do .ok (← b.writeDataMut bytes, delta)
  | .setExecutable isExecutable => do .ok (← b.setExecutable rent isExecutable, delta)

structure InstructionAccount where
  indexInTransaction : Nat
  /-- The first occurrence in the instruction that made the call. -/
  indexInCaller : Nat
  /-- The first occurrence in the instruction itself. -/
  indexInCallee : Nat
  isSigner : Bool
  isWritable : Bool
deriving Repr, DecidableEq

structure InstructionContext where
  instructionAccountsLamportSum : Nat
  programAccounts : List Nat
  instructionAccounts : List InstructionAccount
deriving Repr, DecidableEq

/-- The stack has the current instruction first and holds the instruction contexts themselves,
which the source finds in the trace; of the trace only the length matters. -/
structure TransactionContext where
  accountKeys : List Pubkey
  accounts : List (Account Bytes)
  instructionStackCapacity : Nat
  instructionTraceCapacity : Nat
  instructionStack : List InstructionContext
  instructionTraceLength : Nat
  accountsResizeDelta : Int
  rent : Rent

namespace TransactionContext

def findIndexOfAccount (tc : TransactionContext) (pubkey : Pubkey) : Option Nat :=
  (tc.accountKeys.findIdx? (· == pubkey)).map asIndexOfAccount

def getAccountAtIndex (tc : TransactionContext) (index : Nat) : InstructionResult (Account Bytes) :=
  okOr .notEnoughAccountKeys tc.accounts[index]?

def getCurrentInstructionContext (tc : TransactionContext) : InstructionResult InstructionContext :=
  okOr .callDepth tc.instructionStack.head?

end TransactionContext

namespace InstructionContext

def getNumberOfProgramAccounts (ctx : InstructionContext) : Nat :=
  asIndexOfAccount ctx.programAccounts.length

def getNumberOfInstructionAccounts (ctx : InstructionContext) : Nat :=
  asIndexOfAccount ctx.instructionAccounts.length

def findIndexOfInstructionAccount (ctx : InstructionContext) (tc : TransactionContext)
    (pubkey : Pubkey) : Option Nat :=
  (ctx.instructionAccounts.findIdx? (fun instructionAccount =>
    tc.accountKeys[instructionAccount.indexInTransaction]? == some pubkey)).map asIndexOfAccount

def getLastProgramKey (ctx : InstructionContext) (tc : TransactionContext) : Option Pubkey := do
  let indexInTransaction ← ctx.programAccounts[ctx.getNumberOfProgramAccounts - 1]?
  tc.accountKeys[indexInTransaction]?

/-- Whether the account at the position in the instruction, where the program accounts come
first, has a privilege. Program accounts have none. -/
def hasPrivilege (ctx : InstructionContext) (privilege : InstructionAccount → Bool)
    (indexInInstruction : Nat) : Bool :=
  if indexInInstruction < ctx.getNumberOfProgramAccounts then false
  else
    match ctx.instructionAccounts[indexInInstruction - ctx.getNumberOfProgramAccounts]? with
    | some instructionAccount => privilege instructionAccount
    | none => false

/-- The account, and where it is in the transaction. -/
def tryBorrowAccount (ctx : InstructionContext) (tc : TransactionContext)
    (indexInTransaction indexInInstruction : Nat) :
    InstructionResult (BorrowedAccount Bytes × Nat) := do
  let account ← okOr .missingAccount tc.accounts[indexInTransaction]?
  .ok (⟨account, ctx.getLastProgramKey tc, ctx.hasPrivilege (·.isWritable) indexInInstruction⟩,
    indexInTransaction)

def tryBorrowProgramAccount (ctx : InstructionContext) (tc : TransactionContext)
    (programAccountIndex : Nat) : InstructionResult (BorrowedAccount Bytes × Nat) := do
  let indexInTransaction ← okOr .notEnoughAccountKeys ctx.programAccounts[programAccountIndex]?
  ctx.tryBorrowAccount tc indexInTransaction programAccountIndex

def tryBorrowInstructionAccount (ctx : InstructionContext) (tc : TransactionContext)
    (instructionAccountIndex : Nat) : InstructionResult (BorrowedAccount Bytes × Nat) := do
  let instructionAccount ←
    okOr .notEnoughAccountKeys ctx.instructionAccounts[instructionAccountIndex]?
  ctx.tryBorrowAccount tc instructionAccount.indexInTransaction
    (saturatingAddIndex ctx.getNumberOfProgramAccounts instructionAccountIndex)

end InstructionContext

namespace TransactionContext

/-- One round of the sum: an account that occurred before is not counted again. -/
def addInstructionAccount (tc : TransactionContext) (ctx : InstructionContext) (sum index : Nat) :
    InstructionResult Nat := do
  let instructionAccount ← okOr .notEnoughAccountKeys ctx.instructionAccounts[index]?
  if instructionAccount.indexInCallee ≠ index then .ok sum
  else
    let account ← tc.getAccountAtIndex instructionAccount.indexInTransaction
    okOr .arithmeticOverflow (checkedAddU128 account.lamports sum)

def instructionAccountsLamportSum (tc : TransactionContext) (ctx : InstructionContext) :
    InstructionResult Nat :=
  (List.range ctx.getNumberOfInstructionAccounts).foldlM (tc.addInstructionAccount ctx) 0

def checkCallerBalanced (tc : TransactionContext) : InstructionResult Unit :=
  match tc.instructionStack.head? with
  | none => .ok ()
  | some caller => do
    let current ← tc.instructionAccountsLamportSum caller
    if caller.instructionAccountsLamportSum ≠ current then reject .unbalancedInstruction
    else .ok ()

def push (tc : TransactionContext) (programAccounts : List Nat)
    (instructionAccounts : List InstructionAccount) : InstructionResult TransactionContext := do
  let sum ← tc.instructionAccountsLamportSum ⟨0, programAccounts, instructionAccounts⟩
  tc.checkCallerBalanced
  if tc.instructionTraceCapacity ≤ tc.instructionTraceLength then
    reject .maxInstructionTraceLengthExceeded
  else if tc.instructionStackCapacity ≤ tc.instructionStack.length then reject .callDepth
  else .ok { tc with
    instructionStack := ⟨sum, programAccounts, instructionAccounts⟩ :: tc.instructionStack
    instructionTraceLength := tc.instructionTraceLength + 1 }

def pop (tc : TransactionContext) : InstructionResult TransactionContext := do
  let ctx ← tc.getCurrentInstructionContext
  ctx.programAccounts.forM (fun index => do let _ ← tc.getAccountAtIndex index)
  let sum ← tc.instructionAccountsLamportSum ctx
  if ctx.instructionAccountsLamportSum ≠ sum then reject .unbalancedInstruction
  else .ok { tc with instructionStack := tc.instructionStack.tail }

end TransactionContext

end Nuah
