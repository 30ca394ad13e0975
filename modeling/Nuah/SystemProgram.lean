import Nuah.InvokeContext

/-!
# The system program

Creating an account and transferring lamports (`programs/system/src/system_processor.rs`), and
how a builtin program calls another one (`native_invoke` of `invoke_context.rs`). `borrow` is
told which accounts of the transaction are out.
-/

namespace Nuah

namespace InstructionContext

def checkNumberOfInstructionAccounts (ctx : InstructionContext) (expectedAtLeast : Nat) :
    InstructionResult Unit :=
  if ctx.getNumberOfInstructionAccounts < expectedAtLeast then reject .notEnoughAccountKeys
  else .ok ()

def getIndexOfInstructionAccountInTransaction (ctx : InstructionContext)
    (instructionAccountIndex : Nat) : InstructionResult Nat := do
  let instructionAccount ←
    okOr .notEnoughAccountKeys ctx.instructionAccounts[instructionAccountIndex]?
  .ok instructionAccount.indexInTransaction

def getKeyOfInstructionAccount (ctx : InstructionContext) (tc : TransactionContext)
    (instructionAccountIndex : Nat) : InstructionResult Pubkey := do
  let index ← ctx.getIndexOfInstructionAccountInTransaction instructionAccountIndex
  okOr .notEnoughAccountKeys tc.accountKeys[index]?

def isInstructionAccountSigner (ctx : InstructionContext) (instructionAccountIndex : Nat) :
    InstructionResult Bool := do
  let instructionAccount ← okOr .missingAccount ctx.instructionAccounts[instructionAccountIndex]?
  .ok instructionAccount.isSigner

def getSigners (ctx : InstructionContext) (tc : TransactionContext) :
    InstructionResult (List Pubkey) :=
  (ctx.instructionAccounts.filter (·.isSigner)).mapM fun instructionAccount =>
    okOr .notEnoughAccountKeys tc.accountKeys[instructionAccount.indexInTransaction]?

/-- Borrows an account while those in `out` are borrowed. -/
def borrow (ctx : InstructionContext) (tc : TransactionContext) (out : List Nat)
    (instructionAccountIndex : Nat) : InstructionResult (BorrowedAccount Bytes × Nat) := do
  let (borrowed, index) ← ctx.tryBorrowInstructionAccount tc instructionAccountIndex
  if index ∈ out then reject .accountBorrowFailed else .ok (borrowed, index)

end InstructionContext

/-- A check of the source that ends the instruction when it fails. -/
def ensure (p : Prop) [Decidable p] (e : InstructionError) : InstructionResult Unit :=
  if p then .ok () else reject e

/-- What was changed through a borrow is in the account. -/
def TransactionContext.store (tc : TransactionContext) (index : Nat) (b : BorrowedAccount Bytes) :
    TransactionContext :=
  { tc with accounts := tc.accounts.set index b.account }

def TransactionContext.storeResized (tc : TransactionContext) (index : Nat)
    (resized : BorrowedAccount Bytes × Int) : TransactionContext :=
  { tc.store index resized.1 with accountsResizeDelta := resized.2 }

def InvokeContext.nativeInvoke (tc : TransactionContext) (instruction : Instruction)
    (signers : List Pubkey) (process : TransactionContext → InstructionResult TransactionContext) :
    InstructionResult TransactionContext := do
  let (instructionAccounts, programIndices) ←
    InvokeContext.prepareInstruction tc instruction signers
  let pushed ← InvokeContext.push tc programIndices instructionAccounts
  let called ← process pushed
  called.pop

namespace SystemProgram

def transferInstruction (systemProgramId fromPubkey toPubkey : Pubkey) : Instruction :=
  ⟨systemProgramId, [⟨fromPubkey, true, true⟩, ⟨toPubkey, false, true⟩]⟩

def createAccountInstruction (systemProgramId fromPubkey toPubkey : Pubkey) : Instruction :=
  ⟨systemProgramId, [⟨fromPubkey, true, true⟩, ⟨toPubkey, true, true⟩]⟩

def transferVerified (ctx : InstructionContext) (tc : TransactionContext)
    (fromAccountIndex toAccountIndex lamports : Nat) : InstructionResult TransactionContext := do
  let (sender, senderIndex) ← ctx.borrow tc [] fromAccountIndex
  ensure (sender.account.data = []) .invalidArgument
  ensure (lamports ≤ sender.account.lamports) (.system .resultWithNegativeLamports)
  let sender ← sender.checkedSubLamports lamports
  let tc := tc.store senderIndex sender
  let (recipient, recipientIndex) ← ctx.borrow tc [] toAccountIndex
  let recipient ← recipient.checkedAddLamports lamports
  .ok (tc.store recipientIndex recipient)

def transfer (ctx : InstructionContext) (tc : TransactionContext)
    (fromAccountIndex toAccountIndex lamports : Nat) : InstructionResult TransactionContext := do
  ensure ((← ctx.isInstructionAccountSigner fromAccountIndex) = true) .missingRequiredSignature
  transferVerified ctx tc fromAccountIndex toAccountIndex lamports

def allocate (systemProgramId : Pubkey) (account : BorrowedAccount Bytes) (delta : Int)
    (address : Pubkey) (space : Nat) (signers : List Pubkey) :
    InstructionResult (BorrowedAccount Bytes × Int) := do
  ensure (address ∈ signers) .missingRequiredSignature
  ensure (account.account.data = [] ∧ account.account.owner = systemProgramId)
    (.system .accountAlreadyInUse)
  ensure (space ≤ maxPermittedDataLength) (.system .invalidAccountDataLength)
  account.setDataLength delta space

def assign (account : BorrowedAccount Bytes) (address owner : Pubkey) (signers : List Pubkey) :
    InstructionResult (BorrowedAccount Bytes) :=
  if account.account.owner = owner then .ok account
  else do
    ensure (address ∈ signers) .missingRequiredSignature
    account.setOwner owner

def createAccount (systemProgramId : Pubkey) (ctx : InstructionContext) (tc : TransactionContext)
    (fromAccountIndex toAccountIndex : Nat) (toAddress : Pubkey) (lamports space : Nat)
    (owner : Pubkey) (signers : List Pubkey) : InstructionResult TransactionContext := do
  let (target, targetIndex) ← ctx.borrow tc [] toAccountIndex
  ensure (target.account.lamports = 0) (.system .accountAlreadyInUse)
  let (target, delta) ←
    allocate systemProgramId target tc.accountsResizeDelta toAddress space signers
  let target ← assign target toAddress owner signers
  transfer ctx (tc.storeResized targetIndex (target, delta)) fromAccountIndex toAccountIndex lamports

/-- `SystemInstruction::CreateAccount`. -/
def processCreateAccount (systemProgramId : Pubkey) (lamports space : Nat) (owner : Pubkey)
    (tc : TransactionContext) : InstructionResult TransactionContext := do
  let ctx ← tc.getCurrentInstructionContext
  let signers ← ctx.getSigners tc
  ctx.checkNumberOfInstructionAccounts 2
  let toAddress ← ctx.getKeyOfInstructionAccount tc 1
  createAccount systemProgramId ctx tc 0 1 toAddress lamports space owner signers

/-- `SystemInstruction::Transfer`. -/
def processTransfer (lamports : Nat) (tc : TransactionContext) :
    InstructionResult TransactionContext := do
  let ctx ← tc.getCurrentInstructionContext
  let _ ← ctx.getSigners tc
  ctx.checkNumberOfInstructionAccounts 2
  transfer ctx tc 0 1 lamports

end SystemProgram

end Nuah
