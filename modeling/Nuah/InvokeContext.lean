import Nuah.TransactionContext

/-!
# Invocations

How an instruction is called, by the message or by another program
(`program-runtime/src/invoke_context.rs`, `message_processor.rs`), and what a program can do
while it is called.
-/

namespace Nuah

structure AccountMeta where
  pubkey : Pubkey
  isSigner : Bool
  isWritable : Bool
deriving Repr, DecidableEq

structure Instruction where
  programId : Pubkey
  accounts : List AccountMeta
deriving Repr, DecidableEq

namespace InvokeContext

/-- The accounts of a call without repetition, and for each account meta seen so far the
position of its account among them. -/
structure PreparedAccounts where
  deduplicatedInstructionAccounts : List InstructionAccount
  duplicateIndices : List Nat
deriving Repr, DecidableEq

/-- One round of the first loop of `prepare_instruction`: an account that occurred before
gets the privileges of both occurrences. -/
def prepareAccount (tc : TransactionContext) (ctx : InstructionContext) (prepared : PreparedAccounts)
    (entry : AccountMeta × Nat) : InstructionResult PreparedAccounts := do
  let (accountMeta, instructionAccountIndex) := entry
  let indexInTransaction ← okOr .missingAccount (tc.findIndexOfAccount accountMeta.pubkey)
  match prepared.deduplicatedInstructionAccounts.findIdx?
      (·.indexInTransaction == indexInTransaction) with
  | some duplicateIndex =>
    .ok ⟨prepared.deduplicatedInstructionAccounts.modify duplicateIndex (fun a =>
        { a with
          isSigner := a.isSigner || accountMeta.isSigner
          isWritable := a.isWritable || accountMeta.isWritable }),
      prepared.duplicateIndices ++ [duplicateIndex]⟩
  | none =>
    let indexInCaller ← okOr .missingAccount
      (ctx.findIndexOfInstructionAccount tc accountMeta.pubkey)
    .ok ⟨prepared.deduplicatedInstructionAccounts ++
        [⟨indexInTransaction, indexInCaller, asIndexOfAccount instructionAccountIndex,
          accountMeta.isSigner, accountMeta.isWritable⟩],
      prepared.duplicateIndices ++ [prepared.deduplicatedInstructionAccounts.length]⟩

/-- The callee gets no privilege that the caller does not have, save that the calling
program can sign for its own addresses. -/
def checkPrivileges (tc : TransactionContext) (ctx : InstructionContext) (signers : List Pubkey)
    (instructionAccount : InstructionAccount) : InstructionResult Unit := do
  let (borrowed, indexInTransaction) ←
    ctx.tryBorrowInstructionAccount tc instructionAccount.indexInCaller
  if instructionAccount.isWritable && !borrowed.isWritable then reject .privilegeEscalation
  else
    let isSigner := ctx.hasPrivilege (·.isSigner)
      (saturatingAddIndex ctx.getNumberOfProgramAccounts instructionAccount.indexInCaller)
    let isProgramSigner := tc.accountKeys[indexInTransaction]?.any signers.contains
    if instructionAccount.isSigner && !(isSigner || isProgramSigner) then
      reject .privilegeEscalation
    else .ok ()

/-- The accounts of the call, and the position of its program. -/
def prepareInstruction (tc : TransactionContext) (instruction : Instruction)
    (signers : List Pubkey) : InstructionResult (List InstructionAccount × List Nat) := do
  let ctx ← tc.getCurrentInstructionContext
  let prepared ← instruction.accounts.zipIdx.foldlM (prepareAccount tc ctx) ⟨[], []⟩
  prepared.deduplicatedInstructionAccounts.forM (checkPrivileges tc ctx signers)
  let instructionAccounts ← prepared.duplicateIndices.mapM (fun duplicateIndex =>
    okOr .notEnoughAccountKeys prepared.deduplicatedInstructionAccounts[duplicateIndex]?)
  let programAccountIndex ← okOr .missingAccount
    (ctx.findIndexOfInstructionAccount tc instruction.programId)
  let (borrowedProgramAccount, index) ← ctx.tryBorrowInstructionAccount tc programAccountIndex
  if !borrowedProgramAccount.account.executable then reject .accountNotExecutable
  else .ok (instructionAccounts, [index])

/-- A program is not called again while it is being called, unless by itself. -/
def push (tc : TransactionContext) (programAccounts : List Nat)
    (instructionAccounts : List InstructionAccount) : InstructionResult TransactionContext := do
  let programId ← okOr .unsupportedProgramId
    (InstructionContext.getLastProgramKey ⟨0, programAccounts, instructionAccounts⟩ tc)
  let contains := tc.instructionStack.any (fun ctx => ctx.getLastProgramKey tc == some programId)
  let isLast := tc.instructionStack.head?.any (fun ctx => ctx.getLastProgramKey tc == some programId)
  if contains && !isLast then reject .reentrancyNotAllowed
  else tc.push programAccounts instructionAccounts

end InvokeContext

inductive AccountTarget where
  | instructionAccount (index : Nat)
  | programAccount (index : Nat)
deriving Repr, DecidableEq

/-- What a program does while it is called. An operation that fails leaves the accounts as
they were, and so does a call that cannot be prepared; the program goes on. -/
inductive Behaviour where
  | done
  | mutate (target : AccountTarget) (m : Mutator) (rest : Behaviour)
  | invoke (instruction : Instruction) (signers : List Pubkey) (callee rest : Behaviour)

/-- A change of an account, with the program that was being executed. -/
structure Change where
  programKey : Option Pubkey
  index : Nat
  before : Account Bytes
  after : Account Bytes
deriving Repr, DecidableEq

def tryBorrow (tc : TransactionContext) (ctx : InstructionContext) :
    AccountTarget → InstructionResult (BorrowedAccount Bytes × Nat)
  | .instructionAccount index => ctx.tryBorrowInstructionAccount tc index
  | .programAccount index => ctx.tryBorrowProgramAccount tc index

def mutateAccount (tc : TransactionContext) (target : AccountTarget) (m : Mutator) :
    InstructionResult (TransactionContext × Change) := do
  let ctx ← tc.getCurrentInstructionContext
  let (borrowed, index) ← tryBorrow tc ctx target
  let (borrowed', delta) ← m.apply tc.rent tc.accountsResizeDelta borrowed
  .ok ({ tc with
      accounts := tc.accounts.set index borrowed'.account
      accountsResizeDelta := delta },
    ⟨borrowed.lastProgramKey, index, borrowed.account, borrowed'.account⟩)

/-- Executes a behaviour, with the changes it makes in their order. It fails when a push or
a pop does. -/
def runBehaviour : Behaviour → TransactionContext →
    InstructionResult (TransactionContext × List Change)
  | .done, tc => .ok (tc, [])
  | .mutate target m rest, tc =>
    match mutateAccount tc target m with
    | .ok (tc', change) => do
      let (tc'', changes) ← runBehaviour rest tc'
      .ok (tc'', change :: changes)
    | .error _ => runBehaviour rest tc
  | .invoke instruction signers callee rest, tc =>
    match InvokeContext.prepareInstruction tc instruction signers with
    | .ok (instructionAccounts, programIndices) => do
      let pushed ← InvokeContext.push tc programIndices instructionAccounts
      let (called, changes) ← runBehaviour callee pushed
      let popped ← called.pop
      let (tc', changes') ← runBehaviour rest popped
      .ok (tc', changes ++ changes')
    | .error _ => runBehaviour rest tc

/-- What the message says of the accounts of the transaction. -/
structure Message where
  isSigner : Nat → Bool
  isWritable : Nat → Bool

/-- The accounts of a top-level instruction, as `process_message` sets them up. -/
def topLevelInstructionAccounts (message : Message) (accounts : List UInt8) :
    List InstructionAccount :=
  accounts.mapIdx (fun instructionAccountIndex index =>
    ⟨asIndexOfAccount index.toNat, asIndexOfAccount index.toNat,
      asIndexOfAccount
        (((accounts.take instructionAccountIndex).findIdx? (· == index)).getD instructionAccountIndex),
      message.isSigner index.toNat, message.isWritable index.toNat⟩)

def processTopLevelInstruction (tc : TransactionContext) (message : Message)
    (accounts : List UInt8) (programIndices : List Nat) (program : Behaviour) :
    InstructionResult (TransactionContext × List Change) := do
  let pushed ← InvokeContext.push tc programIndices (topLevelInstructionAccounts message accounts)
  let (called, changes) ← runBehaviour program pushed
  let popped ← called.pop
  .ok (popped, changes)

end Nuah
