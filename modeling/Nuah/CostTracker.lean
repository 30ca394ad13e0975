import Nuah.Primitives
import Nuah.Lib.OrderedMaps

/-!
# The block cost tracker

A leader asks the cost tracker before it puts a transaction into its block. The tracker
keeps running totals of what the block already holds. All its arithmetic saturates.
-/

namespace Nuah

open Std (TreeMap)

def signatureCostUnits : Nat := 30 * 24
def writeLockUnits : Nat := 30 * 10
def maxBlockAccountsDataSizeDelta : Nat := 100000000
def voteDefaultComputeUnits : Nat := 2100
def simpleVoteUsageCost : Nat := 3428

structure UsageCostDetails where
  writableAccounts : List Pubkey := []
  signatureCost : Nat := 0
  writeLockCost : Nat := 0
  dataBytesCost : Nat := 0
  programsExecutionCost : Nat := 0
  loadedAccountsDataSizeCost : Nat := 0
  accountDataSize : Nat := 0
  numTransactionSignatures : Nat := 0
  numSecp256k1InstructionSignatures : Nat := 0
  numEd25519InstructionSignatures : Nat := 0
deriving Repr, DecidableEq

def UsageCostDetails.sum (u : UsageCostDetails) : Nat :=
  saturatingAddU64 (saturatingAddU64 (saturatingAddU64
    (saturatingAddU64 u.signatureCost u.writeLockCost) u.dataBytesCost)
    u.programsExecutionCost) u.loadedAccountsDataSizeCost

inductive TransactionCost where
  | simpleVote (writableAccounts : List Pubkey)
  | transaction (usageCost : UsageCostDetails)
deriving Repr, DecidableEq

namespace TransactionCost

def sum : TransactionCost → Nat
  | simpleVote _ => simpleVoteUsageCost
  | transaction usageCost => usageCost.sum

def programsExecutionCost : TransactionCost → Nat
  | simpleVote _ => voteDefaultComputeUnits
  | transaction usageCost => usageCost.programsExecutionCost

def isSimpleVote : TransactionCost → Bool
  | simpleVote _ => true
  | transaction _ => false

def accountDataSize : TransactionCost → Nat
  | simpleVote _ => 0
  | transaction usageCost => usageCost.accountDataSize

def signatureCost : TransactionCost → Nat
  | simpleVote _ => signatureCostUnits
  | transaction usageCost => usageCost.signatureCost

def writableAccounts : TransactionCost → List Pubkey
  | simpleVote accounts => accounts
  | transaction usageCost => usageCost.writableAccounts

def numTransactionSignatures : TransactionCost → Nat
  | simpleVote _ => 1
  | transaction usageCost => usageCost.numTransactionSignatures

def numSecp256k1InstructionSignatures : TransactionCost → Nat
  | simpleVote _ => 0
  | transaction usageCost => usageCost.numSecp256k1InstructionSignatures

def numEd25519InstructionSignatures : TransactionCost → Nat
  | simpleVote _ => 0
  | transaction usageCost => usageCost.numEd25519InstructionSignatures

end TransactionCost

-- the constant assertion in `TransactionCost::sum`
example : simpleVoteUsageCost =
    voteDefaultComputeUnits + signatureCostUnits + 2 * writeLockUnits + 8 := rfl

inductive CostTrackerError where
  | wouldExceedBlockMaxLimit
  | wouldExceedVoteMaxLimit
  | wouldExceedAccountMaxLimit
  | wouldExceedAccountDataBlockLimit
deriving Repr, DecidableEq

structure CostTracker where
  accountCostLimit : Nat
  blockCostLimit : Nat
  voteCostLimit : Nat
  costByWritableAccounts : TreeMap Pubkey Nat := ∅
  blockCost : Nat := 0
  voteCost : Nat := 0
  transactionCount : Nat := 0
  accountDataSize : Nat := 0
  transactionSignatureCount : Nat := 0
  secp256k1InstructionSignatureCount : Nat := 0
  ed25519InstructionSignatureCount : Nat := 0

namespace CostTracker

def wouldFit (t : CostTracker) (txCost : TransactionCost) : Except CostTrackerError Unit :=
  let cost := txCost.sum
  if txCost.isSimpleVote ∧ t.voteCostLimit < saturatingAddU64 t.voteCost cost then
    .error .wouldExceedVoteMaxLimit
  else if t.blockCostLimit < saturatingAddU64 t.blockCost cost then
    .error .wouldExceedBlockMaxLimit
  else if t.accountCostLimit < cost then
    .error .wouldExceedAccountMaxLimit
  else if maxBlockAccountsDataSizeDelta <
      saturatingAddU64 t.accountDataSize txCost.accountDataSize then
    .error .wouldExceedAccountDataBlockLimit
  else if txCost.writableAccounts.any fun accountKey =>
      match t.costByWritableAccounts[accountKey]? with
      | some chainedCost => t.accountCostLimit < saturatingAddU64 chainedCost cost
      | none => false then
    .error .wouldExceedAccountMaxLimit
  else .ok ()

/-- The common body of `add_transaction_execution_cost` and `sub_transaction_execution_cost`:
`op` is the saturating operation that each of them applies. -/
def applyExecutionCost (op : Nat → Nat → Nat) (t : CostTracker) (txCost : TransactionCost)
    (adjustment : Nat) : CostTracker :=
  { t with
    costByWritableAccounts := txCost.writableAccounts.foldl
      (fun costs accountKey =>
        costs.insert accountKey (op (costs[accountKey]?.getD 0) adjustment))
      t.costByWritableAccounts
    blockCost := op t.blockCost adjustment
    voteCost := if txCost.isSimpleVote then op t.voteCost adjustment else t.voteCost }

def addTransactionExecutionCost : CostTracker → TransactionCost → Nat → CostTracker :=
  applyExecutionCost saturatingAddU64

-- `saturating_sub` is the subtraction of natural numbers
def subTransactionExecutionCost : CostTracker → TransactionCost → Nat → CostTracker :=
  applyExecutionCost (· - ·)

def addTransactionCost (t : CostTracker) (txCost : TransactionCost) : CostTracker :=
  let t := t.addTransactionExecutionCost txCost txCost.sum
  { t with
    accountDataSize := saturatingAddU64 t.accountDataSize txCost.accountDataSize
    transactionCount := saturatingAddU64 t.transactionCount 1
    transactionSignatureCount :=
      saturatingAddU64 t.transactionSignatureCount txCost.numTransactionSignatures
    secp256k1InstructionSignatureCount := saturatingAddU64
      t.secp256k1InstructionSignatureCount txCost.numSecp256k1InstructionSignatures
    ed25519InstructionSignatureCount := saturatingAddU64
      t.ed25519InstructionSignatureCount txCost.numEd25519InstructionSignatures }

/-- `remove`, which is `remove_transaction_cost`. -/
def remove (t : CostTracker) (txCost : TransactionCost) : CostTracker :=
  let t := t.subTransactionExecutionCost txCost txCost.sum
  { t with
    accountDataSize := t.accountDataSize - txCost.accountDataSize
    transactionCount := t.transactionCount - 1
    transactionSignatureCount :=
      t.transactionSignatureCount - txCost.numTransactionSignatures
    secp256k1InstructionSignatureCount :=
      t.secp256k1InstructionSignatureCount - txCost.numSecp256k1InstructionSignatures
    ed25519InstructionSignatureCount :=
      t.ed25519InstructionSignatureCount - txCost.numEd25519InstructionSignatures }

def tryAdd (t : CostTracker) (txCost : TransactionCost) :
    Except CostTrackerError Nat × CostTracker :=
  match t.wouldFit txCost with
  | .error e => (.error e, t)
  | .ok () =>
    let t := t.addTransactionCost txCost
    (.ok t.blockCost, t)

def updateExecutionCost (t : CostTracker) (estimatedTxCost : TransactionCost)
    (actualExecutionUnits : Nat) : CostTracker :=
  let estimatedExecutionUnits := estimatedTxCost.programsExecutionCost
  match compare actualExecutionUnits estimatedExecutionUnits with
  | .eq => t
  | .gt => t.addTransactionExecutionCost estimatedTxCost
      (actualExecutionUnits - estimatedExecutionUnits)
  | .lt => t.subTransactionExecutionCost estimatedTxCost
      (estimatedExecutionUnits - actualExecutionUnits)

end CostTracker

end Nuah
