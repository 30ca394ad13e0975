import Nuah.SystemProgram
import Nuah.Lib.ByteStrings

/-!
# The upgradeable loader

`process_loader_upgradeable_instruction` of `programs/bpf_loader/src/lib.rs`. A program is
an account that names another one, its program data, which holds the executable and the
authority. Loading and verifying an executable is a parameter.
-/

namespace Nuah

open ByteStrings SystemProgram

/-! ## The state of an account -/

inductive UpgradeableLoaderState where
  | uninitialized
  | buffer (authorityAddress : Option Pubkey)
  | program (programdataAddress : Pubkey)
  | programData (slot : Slot) (upgradeAuthorityAddress : Option Pubkey)
deriving Repr, DecidableEq

namespace UpgradeableLoaderState

def sizeOfUninitialized : Nat := 4
def sizeOfBufferMetadata : Nat := 37
def sizeOfProgramdataMetadata : Nat := 45
def sizeOfProgram : Nat := 36
def sizeOfBuffer (programLen : Nat) : Nat := saturatingAddU64 sizeOfBufferMetadata programLen
def sizeOfProgramdata (programLen : Nat) : Nat :=
  saturatingAddU64 sizeOfProgramdataMetadata programLen

/-! Numbers are written with their lowest byte first, keys as they are compared. -/

def serializePubkey (key : Pubkey) : Bytes := (leBytes 32 key).reverse

def serializeAuthority : Option Pubkey → Bytes
  | none => [0]
  | some key => 1 :: serializePubkey key

def serialize : UpgradeableLoaderState → Bytes
  | .uninitialized => leBytes 4 0
  | .buffer authorityAddress => leBytes 4 1 ++ serializeAuthority authorityAddress
  | .program programdataAddress => leBytes 4 2 ++ serializePubkey programdataAddress
  | .programData slot upgradeAuthorityAddress =>
    leBytes 4 3 ++ (leBytes 8 slot ++ serializeAuthority upgradeAuthorityAddress)

def deserializePubkey (input : Bytes) : Option Pubkey := do
  let (bytes, _) ← readBytes 32 input
  some (ofLeBytes bytes.reverse)

def deserializeAuthority (input : Bytes) : Option (Option Pubkey) := do
  let (tag, input) ← readBytes 1 input
  match ofLeBytes tag with
  | 0 => some none
  | 1 => some (← deserializePubkey input)
  | _ => none

/-- The state at the beginning of the data; what follows it is not looked at. -/
def deserialize (input : Bytes) : Option UpgradeableLoaderState := do
  let (tag, input) ← readBytes 4 input
  match ofLeBytes tag with
  | 0 => some .uninitialized
  | 1 => some (.buffer (← deserializeAuthority input))
  | 2 => some (.program (← deserializePubkey input))
  | 3 => do
    let (slot, input) ← readBytes 8 input
    some (.programData (ofLeBytes slot) (← deserializeAuthority input))
  | _ => none

end UpgradeableLoaderState

open UpgradeableLoaderState (sizeOfUninitialized sizeOfBufferMetadata sizeOfProgramdataMetadata
  sizeOfProgram sizeOfBuffer sizeOfProgramdata deserialize)

inductive UpgradeableLoaderInstruction where
  | initializeBuffer
  | write (offset : Nat) (bytes : Bytes)
  | deployWithMaxDataLen (maxDataLen : Nat)
  | upgrade
  | setAuthority
  | close
  | extendProgram (additionalBytes : Nat)
  | setAuthorityChecked
deriving Repr, DecidableEq

structure LoaderConfig where
  systemProgramId : Pubkey
  rentId : Pubkey
  clockId : Pubkey
  /-- The address that is derived for the program data of a program. -/
  programdataAddress : Pubkey → Pubkey
  /-- Loading and verifying an executable. -/
  verify : Bytes → InstructionResult Unit
  setAuthorityCheckedActive : Bool

namespace BorrowedAccount

def getState (b : BorrowedAccount Bytes) : InstructionResult UpgradeableLoaderState :=
  okOr .invalidAccountData (deserialize b.account.data)

def setState (b : BorrowedAccount Bytes) (state : UpgradeableLoaderState) :
    InstructionResult (BorrowedAccount Bytes) := do
  b.canDataBeChanged
  ensure (state.serialize.length ≤ b.account.data.length) .accountDataTooSmall
  .ok (b.withData (overwrite b.account.data 0 state.serialize))

/-- Copies bytes into the data, at an offset that was asked for with the number of bytes. -/
def copyFromSlice (b : BorrowedAccount Bytes) (offset length : Nat) (bytes : Bytes) :
    InstructionResult (BorrowedAccount Bytes) := do
  b.canDataBeChanged
  ensure (offset + length ≤ b.account.data.length) .accountDataTooSmall
  assertOrPanic (bytes.length = length)
  .ok (b.withData (overwrite b.account.data offset bytes))

def bufferContents (b : BorrowedAccount Bytes) : InstructionResult Bytes := do
  ensure (sizeOfBufferMetadata ≤ b.account.data.length) .accountDataTooSmall
  .ok (b.account.data.drop sizeOfBufferMetadata)

end BorrowedAccount

namespace UpgradeableLoader

variable (cfg : LoaderConfig) (clockSlot : Slot) (ctx : InstructionContext)
  (tc : TransactionContext)

def checkSysvarAccount (id : Pubkey) (index : Nat) : InstructionResult Unit := do
  ensure ((← ctx.getKeyOfInstructionAccount tc index) = id) .invalidArgument

def getProgramId : InstructionResult Pubkey :=
  okOr .notEnoughAccountKeys (ctx.getLastProgramKey tc)

/-- The account of the instruction is the authority, which has signed. -/
def checkAuthority (authorityAddress : Option Pubkey) (index : Nat) : InstructionResult Unit := do
  ensure (authorityAddress ≠ none) .immutable
  ensure (authorityAddress = some (← ctx.getKeyOfInstructionAccount tc index)) .incorrectAuthority
  ensure ((← ctx.isInstructionAccountSigner index) = true) .missingRequiredSignature

/-! ## Buffers -/

def initializeBuffer : InstructionResult TransactionContext := do
  ctx.checkNumberOfInstructionAccounts 2
  let (buffer, index) ← ctx.borrow tc [] 0
  ensure ((← buffer.getState) = .uninitialized) .accountAlreadyInitialized
  let authorityKey ← ctx.getKeyOfInstructionAccount tc 1
  let buffer ← buffer.setState (.buffer (some authorityKey))
  .ok (tc.store index buffer)

def writeProgramData (programDataOffset : Nat) (bytes : Bytes) :
    InstructionResult TransactionContext := do
  let (program, index) ← ctx.borrow tc [] 0
  let program ← program.copyFromSlice programDataOffset bytes.length bytes
  .ok (tc.store index program)

/-- The account is a buffer whose authority has signed. -/
def checkWrittenBuffer : UpgradeableLoaderState → InstructionResult Unit
  | .buffer authorityAddress => checkAuthority ctx tc authorityAddress 1
  | _ => reject .invalidAccountData

def write (offset : Nat) (bytes : Bytes) : InstructionResult TransactionContext := do
  ctx.checkNumberOfInstructionAccounts 2
  let (buffer, _) ← ctx.borrow tc [] 0
  checkWrittenBuffer ctx tc (← buffer.getState)
  writeProgramData ctx tc (sizeOfBufferMetadata + offset) bytes

/-- The account is a buffer with the authority, which has signed. -/
def checkBufferState (authorityKey : Pubkey) (authorityIndex : Nat) :
    UpgradeableLoaderState → InstructionResult Unit
  | .buffer authorityAddress => do
    ensure (authorityAddress = some authorityKey) .incorrectAuthority
    ensure ((← ctx.isInstructionAccountSigner authorityIndex) = true) .missingRequiredSignature
  | _ => reject .invalidArgument

/-- A buffer that holds something, with the authority that has signed: its position. -/
def checkBuffer (index : Nat) (authorityKey : Pubkey) (authorityIndex : Nat) :
    InstructionResult (BorrowedAccount Bytes × Nat) := do
  let (buffer, bufferIndex) ← ctx.borrow tc [] index
  checkBufferState ctx authorityKey authorityIndex (← buffer.getState)
  ensure (sizeOfBufferMetadata ≤ buffer.account.data.length ∧
    buffer.account.data.length - sizeOfBufferMetadata ≠ 0) .invalidAccountData
  .ok (buffer, bufferIndex)

def verifyBuffer (index : Nat) : InstructionResult Unit := do
  let (buffer, _) ← ctx.borrow tc [] index
  cfg.verify (← buffer.bufferContents)

/-! ## Deployment -/

/-- A program account that can be deployed to: its key. -/
def checkNewProgram : InstructionResult Pubkey := do
  let (program, programIndex) ← ctx.borrow tc [] 2
  ensure ((← program.getState) = .uninitialized) .accountAlreadyInitialized
  ensure (sizeOfProgram ≤ program.account.data.length) .accountDataTooSmall
  ensure (tc.rent.minimumBalance program.account.data.length ≤ program.account.lamports)
    .executableAccountNotRentExempt
  indexOrPanic tc.accountKeys programIndex

def drainBuffer : InstructionResult TransactionContext := do
  let (buffer, bufferIndex) ← ctx.borrow tc [] 3
  let (payer, payerIndex) ← ctx.borrow tc [bufferIndex] 0
  let payer ← payer.checkedAddLamports buffer.account.lamports
  let buffer ← buffer.setLamports 0
  .ok ((tc.store payerIndex payer).store bufferIndex buffer)

/-- Pays for the program data out of the payer's account and creates it. The buffer is passed
as well, so that the caller is balanced. -/
def createProgramdata (payerKey programdataKey bufferKey programId : Pubkey) (programdataLen : Nat) :
    InstructionResult TransactionContext :=
  let instruction :=
    createAccountInstruction cfg.systemProgramId payerKey programdataKey
  InvokeContext.nativeInvoke tc
    { instruction with accounts := instruction.accounts ++ [⟨bufferKey, false, true⟩] }
    [programdataKey]
    (processCreateAccount cfg.systemProgramId
      (max 1 (tc.rent.minimumBalance programdataLen)) programdataLen programId)

/-- Records the contents of the buffer, and empties it. -/
def recordProgram (authorityKey : Pubkey) (bufferDataLen : Nat) :
    InstructionResult TransactionContext := do
  let (programdata, programdataIndex) ← ctx.borrow tc [] 1
  let programdata ← programdata.setState (.programData clockSlot (some authorityKey))
  let (buffer, bufferIndex) ← ctx.borrow tc [programdataIndex] 3
  let programdata ← programdata.copyFromSlice sizeOfProgramdataMetadata bufferDataLen
    (← buffer.bufferContents)
  let buffer ← buffer.setDataLength tc.accountsResizeDelta (sizeOfBuffer 0)
  .ok ((tc.store programdataIndex programdata).storeResized bufferIndex buffer)

def finishProgram (programdataKey : Pubkey) : InstructionResult TransactionContext := do
  let (program, programIndex) ← ctx.borrow tc [] 2
  let program ← program.setState (.program programdataKey)
  let program ← program.setExecutable tc.rent true
  .ok (tc.store programIndex program)

def deployWithMaxDataLen (maxDataLen : Nat) : InstructionResult TransactionContext := do
  ctx.checkNumberOfInstructionAccounts 4
  let payerKey ← ctx.getKeyOfInstructionAccount tc 0
  let programdataKey ← ctx.getKeyOfInstructionAccount tc 1
  checkSysvarAccount ctx tc cfg.rentId 4
  checkSysvarAccount ctx tc cfg.clockId 5
  ctx.checkNumberOfInstructionAccounts 8
  let authorityKey ← ctx.getKeyOfInstructionAccount tc 7
  let programId ← getProgramId ctx tc
  let newProgramId ← checkNewProgram ctx tc
  let (buffer, bufferIndex) ← checkBuffer ctx tc 3 authorityKey 7
  let bufferKey ← indexOrPanic tc.accountKeys bufferIndex
  let bufferDataLen := buffer.account.data.length - sizeOfBufferMetadata
  let programdataLen := sizeOfProgramdata maxDataLen
  ensure (bufferDataLen ≤ maxDataLen) .accountDataTooSmall
  ensure (programdataLen ≤ maxPermittedDataLength) .invalidArgument
  ensure (cfg.programdataAddress newProgramId = programdataKey) .invalidArgument
  let tc ← drainBuffer ctx tc
  let tc ← createProgramdata cfg tc payerKey programdataKey bufferKey programId programdataLen
  verifyBuffer cfg ctx tc 3
  let tc ← recordProgram clockSlot ctx tc authorityKey bufferDataLen
  finishProgram ctx tc programdataKey

/-! ## Upgrade -/

def checkProgramOf (index : Nat) (programId programdataKey : Pubkey) : InstructionResult Unit := do
  let (program, _) ← ctx.borrow tc [] index
  ensure (program.account.executable = true) .accountNotExecutable
  ensure (program.isWritable = true) .invalidArgument
  ensure (program.account.owner = programId) .incorrectProgramId
  match ← program.getState with
  | .program programdataAddress =>
    ensure (programdataAddress = programdataKey) .invalidArgument
  | _ => reject .invalidAccountData

/-- The account is program data that can be upgraded, by its authority, which has signed. -/
def checkUpgradeable (authorityKey : Pubkey) : UpgradeableLoaderState → InstructionResult Unit
  | .programData slot upgradeAuthorityAddress => do
    ensure (clockSlot ≠ slot) .invalidArgument
    ensure (upgradeAuthorityAddress ≠ none) .immutable
    ensure (upgradeAuthorityAddress = some authorityKey) .incorrectAuthority
    ensure ((← ctx.isInstructionAccountSigner 6) = true) .missingRequiredSignature
  | _ => reject .invalidAccountData

/-- What the program data has to hold for its own rent, once it is checked that the buffer fits
into it and can pay for it, and that the authority has signed. -/
def checkProgramdata (authorityKey : Pubkey) (bufferLamports bufferDataLen : Nat) :
    InstructionResult Nat := do
  let (programdata, _) ← ctx.borrow tc [] 0
  let programdataBalanceRequired :=
    max 1 (tc.rent.minimumBalance programdata.account.data.length)
  ensure (sizeOfProgramdata bufferDataLen ≤ programdata.account.data.length) .accountDataTooSmall
  ensure (programdataBalanceRequired ≤
    saturatingAddU64 programdata.account.lamports bufferLamports) .insufficientFunds
  checkUpgradeable clockSlot ctx authorityKey (← programdata.getState)
  .ok programdataBalanceRequired

/-- Records the contents of the buffer, zeroes the rest, funds the program data and spills what
is left over. -/
def replaceProgram (authorityKey : Pubkey) (bufferLamports bufferDataLen balanceRequired : Nat) :
    InstructionResult TransactionContext := do
  let (programdata, programdataIndex) ← ctx.borrow tc [] 0
  let programdata ← programdata.setState (.programData clockSlot (some authorityKey))
  let (buffer, bufferIndex) ← ctx.borrow tc [programdataIndex] 2
  let programdata ← programdata.copyFromSlice sizeOfProgramdataMetadata bufferDataLen
    (← buffer.bufferContents)
  let rest := sizeOfProgramdataMetadata + bufferDataLen
  let programdata ← programdata.copyFromSlice rest (programdata.account.data.length - rest)
    (List.replicate (programdata.account.data.length - rest) 0)
  let (spill, spillIndex) ← ctx.borrow tc [programdataIndex, bufferIndex] 3
  let spill ← spill.checkedAddLamports
    (saturatingAddU64 programdata.account.lamports bufferLamports - balanceRequired)
  let buffer ← buffer.setLamports 0
  let programdata ← programdata.setLamports balanceRequired
  let buffer ← buffer.setDataLength tc.accountsResizeDelta (sizeOfBuffer 0)
  .ok (((tc.store programdataIndex programdata).store spillIndex spill).storeResized
    bufferIndex buffer)

def upgrade : InstructionResult TransactionContext := do
  ctx.checkNumberOfInstructionAccounts 3
  let programdataKey ← ctx.getKeyOfInstructionAccount tc 0
  checkSysvarAccount ctx tc cfg.rentId 4
  checkSysvarAccount ctx tc cfg.clockId 5
  ctx.checkNumberOfInstructionAccounts 7
  let authorityKey ← ctx.getKeyOfInstructionAccount tc 6
  let programId ← getProgramId ctx tc
  checkProgramOf ctx tc 1 programId programdataKey
  let (buffer, _) ← checkBuffer ctx tc 2 authorityKey 6
  let bufferDataLen := buffer.account.data.length - sizeOfBufferMetadata
  let balanceRequired ←
    checkProgramdata clockSlot ctx tc authorityKey buffer.account.lamports bufferDataLen
  verifyBuffer cfg ctx tc 2
  replaceProgram clockSlot ctx tc authorityKey buffer.account.lamports bufferDataLen balanceRequired

/-! ## Authorities -/

def setAuthority : InstructionResult TransactionContext := do
  ctx.checkNumberOfInstructionAccounts 2
  let (account, index) ← ctx.borrow tc [] 0
  let _ ← ctx.getKeyOfInstructionAccount tc 1
  -- without a third account there is no authority any more
  let newAuthority := (ctx.getKeyOfInstructionAccount tc 2).toOption
  match ← account.getState with
  | .buffer authorityAddress => do
    ensure (newAuthority ≠ none) .incorrectAuthority
    checkAuthority ctx tc authorityAddress 1
    let account ← account.setState (.buffer newAuthority)
    .ok (tc.store index account)
  | .programData slot upgradeAuthorityAddress => do
    checkAuthority ctx tc upgradeAuthorityAddress 1
    let account ← account.setState (.programData slot newAuthority)
    .ok (tc.store index account)
  | _ => reject .invalidArgument

def setAuthorityChecked : InstructionResult TransactionContext := do
  ensure (cfg.setAuthorityCheckedActive = true) .invalidInstructionData
  ctx.checkNumberOfInstructionAccounts 3
  let (account, index) ← ctx.borrow tc [] 0
  let _ ← ctx.getKeyOfInstructionAccount tc 1
  let newAuthorityKey ← ctx.getKeyOfInstructionAccount tc 2
  match ← account.getState with
  | .buffer authorityAddress => do
    checkAuthority ctx tc authorityAddress 1
    ensure ((← ctx.isInstructionAccountSigner 2) = true) .missingRequiredSignature
    let account ← account.setState (.buffer (some newAuthorityKey))
    .ok (tc.store index account)
  | .programData slot upgradeAuthorityAddress => do
    checkAuthority ctx tc upgradeAuthorityAddress 1
    ensure ((← ctx.isInstructionAccountSigner 2) = true) .missingRequiredSignature
    let account ← account.setState (.programData slot (some newAuthorityKey))
    .ok (tc.store index account)
  | _ => reject .invalidArgument

/-! ## Close -/

def commonCloseAccount (authorityAddress : Option Pubkey) : InstructionResult TransactionContext := do
  checkAuthority ctx tc authorityAddress 2
  let (closeAccount, closeIndex) ← ctx.borrow tc [] 0
  let (recipient, recipientIndex) ← ctx.borrow tc [closeIndex] 1
  let recipient ← recipient.checkedAddLamports closeAccount.account.lamports
  let closeAccount ← closeAccount.setLamports 0
  let closeAccount ← closeAccount.setState .uninitialized
  .ok ((tc.store recipientIndex recipient).store closeIndex closeAccount)

def checkClosedProgram (programId closeKey : Pubkey) (slot : Slot) : InstructionResult Unit := do
  let (program, _) ← ctx.borrow tc [] 3
  ensure (program.isWritable = true) .invalidArgument
  ensure (program.account.owner = programId) .incorrectProgramId
  ensure (clockSlot ≠ slot) .invalidArgument
  match ← program.getState with
  | .program programdataAddress => ensure (programdataAddress = closeKey) .invalidArgument
  | _ => reject .invalidArgument

def close : InstructionResult TransactionContext := do
  ctx.checkNumberOfInstructionAccounts 2
  let closePosition ← ctx.getIndexOfInstructionAccountInTransaction 0
  let recipientPosition ← ctx.getIndexOfInstructionAccountInTransaction 1
  ensure (closePosition ≠ recipientPosition) .invalidArgument
  let (closeAccount, closeIndex) ← ctx.borrow tc [] 0
  let closeKey ← indexOrPanic tc.accountKeys closeIndex
  let closeAccountState ← closeAccount.getState
  let resized ← closeAccount.setDataLength tc.accountsResizeDelta sizeOfUninitialized
  let tc := tc.storeResized closeIndex resized
  match closeAccountState with
  | .uninitialized => do
    let (recipient, recipientIndex) ← ctx.borrow tc [closeIndex] 1
    let recipient ← recipient.checkedAddLamports resized.1.account.lamports
    let closeAccount ← resized.1.setLamports 0
    .ok ((tc.store recipientIndex recipient).store closeIndex closeAccount)
  | .buffer authorityAddress => do
    ctx.checkNumberOfInstructionAccounts 3
    commonCloseAccount ctx tc authorityAddress
  | .programData slot upgradeAuthorityAddress => do
    ctx.checkNumberOfInstructionAccounts 4
    let programId ← getProgramId ctx tc
    checkClosedProgram clockSlot ctx tc programId closeKey slot
    commonCloseAccount ctx tc upgradeAuthorityAddress
  | _ => reject .invalidArgument

/-! ## Extension -/

def checkExtendedProgram (programId programdataKey : Pubkey) (programdataIndex : Nat) :
    InstructionResult Unit := do
  let (program, _) ← ctx.borrow tc [programdataIndex] 1
  ensure (program.isWritable = true) .invalidArgument
  ensure (program.account.owner = programId) .invalidAccountOwner
  match ← program.getState with
  | .program programdataAddress => ensure (programdataAddress = programdataKey) .invalidArgument
  | _ => reject .invalidAccountData

def extendableAuthority (programdata : BorrowedAccount Bytes) :
    InstructionResult (Option Pubkey) := do
  match ← programdata.getState with
  | .programData slot upgradeAuthorityAddress => do
    ensure (clockSlot ≠ slot) .invalidArgument
    ensure (upgradeAuthorityAddress ≠ none) .immutable
    .ok upgradeAuthorityAddress
  | _ => reject .invalidAccountData

/-- The payer pays what the program data lacks. -/
def payForExtension (programdataKey : Pubkey) (requiredPayment : Nat) :
    InstructionResult TransactionContext :=
  if 0 < requiredPayment then do
    let payerKey ← ctx.getKeyOfInstructionAccount tc 3
    InvokeContext.nativeInvoke tc
      (transferInstruction cfg.systemProgramId payerKey programdataKey) []
      (processTransfer requiredPayment)
  else .ok tc

/-- Appends the bytes and verifies the executable with them. -/
def growProgramdata (newLen : Nat) (authority : Option Pubkey) :
    InstructionResult TransactionContext := do
  let (programdata, programdataIndex) ← ctx.borrow tc [] 0
  let (programdata, delta) ← programdata.setDataLength tc.accountsResizeDelta newLen
  ensure (sizeOfProgramdataMetadata ≤ programdata.account.data.length) .accountDataTooSmall
  cfg.verify (programdata.account.data.drop sizeOfProgramdataMetadata)
  let programdata ← programdata.setState (.programData clockSlot authority)
  .ok (tc.storeResized programdataIndex (programdata, delta))

def extendProgram (additionalBytes : Nat) : InstructionResult TransactionContext := do
  ensure (additionalBytes ≠ 0) .invalidInstructionData
  let programId ← getProgramId ctx tc
  let (programdata, programdataIndex) ← ctx.borrow tc [] 0
  let programdataKey ← indexOrPanic tc.accountKeys programdataIndex
  ensure (programId = programdata.account.owner) .invalidAccountOwner
  ensure (programdata.isWritable = true) .invalidArgument
  checkExtendedProgram ctx tc programId programdataKey programdataIndex
  let newLen := saturatingAddU64 programdata.account.data.length additionalBytes
  ensure (newLen ≤ maxPermittedDataLength) .invalidRealloc
  let authority ← extendableAuthority clockSlot programdata
  let requiredPayment :=
    max (tc.rent.minimumBalance newLen) 1 - programdata.account.lamports
  let tc ← payForExtension cfg ctx tc programdataKey requiredPayment
  growProgramdata cfg clockSlot ctx tc newLen authority

/-- `process_loader_upgradeable_instruction`. -/
def processInstruction (instruction : UpgradeableLoaderInstruction) :
    InstructionResult TransactionContext := do
  let ctx ← tc.getCurrentInstructionContext
  let _ ← getProgramId ctx tc
  match instruction with
  | .initializeBuffer => initializeBuffer ctx tc
  | .write offset bytes => write ctx tc offset bytes
  | .deployWithMaxDataLen maxDataLen => deployWithMaxDataLen cfg clockSlot ctx tc maxDataLen
  | .upgrade => upgrade cfg clockSlot ctx tc
  | .setAuthority => setAuthority ctx tc
  | .setAuthorityChecked => setAuthorityChecked cfg ctx tc
  | .close => close clockSlot ctx tc
  | .extendProgram additionalBytes => extendProgram cfg clockSlot ctx tc additionalBytes

end UpgradeableLoader

/-! ## Calls on a ledger -/

/-- A call of the loader: the accounts of its transaction, the instruction and those that called
it, and what else the transaction context holds. -/
structure LoaderCall where
  instruction : UpgradeableLoaderInstruction
  accountKeys : List Pubkey
  distinct : accountKeys.Nodup
  fits : accountKeys.length ≤ maxIndexOfAccount
  context : InstructionContext
  callers : List InstructionContext
  instructionStackCapacity : Nat
  instructionTraceCapacity : Nat
  instructionTraceLength : Nat
  accountsResizeDelta : Int
  rent : Rent
  clockSlot : Slot

abbrev AccountLedger := Pubkey → Account Bytes

namespace LoaderCall

def transactionContext (call : LoaderCall) (ledger : AccountLedger) : TransactionContext where
  accountKeys := call.accountKeys
  accounts := call.accountKeys.map ledger
  instructionStackCapacity := call.instructionStackCapacity
  instructionTraceCapacity := call.instructionTraceCapacity
  instructionStack := call.context :: call.callers
  instructionTraceLength := call.instructionTraceLength
  accountsResizeDelta := call.accountsResizeDelta
  rent := call.rent

/-- The accounts of the call as the transaction context has them; the others are as before. -/
def storeAccounts (call : LoaderCall) (ledger : AccountLedger) (accounts : List (Account Bytes)) : AccountLedger :=
  fun key =>
    if key ∈ call.accountKeys then accounts[call.accountKeys.idxOf key]?.getD (ledger key)
    else ledger key

def run (cfg : LoaderConfig) (ledger : AccountLedger) (call : LoaderCall) : InstructionResult AccountLedger := do
  let tc ← UpgradeableLoader.processInstruction cfg call.clockSlot
    (call.transactionContext ledger) call.instruction
  .ok (call.storeAccounts ledger tc.accounts)

def runAll (cfg : LoaderConfig) (calls : List LoaderCall) (ledger : AccountLedger) :
    InstructionResult AccountLedger :=
  calls.foldlM (run cfg) ledger

end LoaderCall

end Nuah
