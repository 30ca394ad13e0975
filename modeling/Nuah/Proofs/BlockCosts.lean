import Nuah.CostTracker

/-!
# The totals of the cost tracker

Every total of the tracker is a sum over the transactions that are in the block, each with
what it counts for now. The signature counters have no limit of their own; they stay in range
because a transaction pays for its signatures.
-/

namespace Nuah.Proofs

open Std (TreeMap)
open OrderedMaps CostTracker List

variable {a : CostTotal} {tx : TransactionCost} {t : CostTracker} {actual n : Nat}
  {live : List LiveTransaction}

/-! ## The family of totals -/

inductive CostTotal where
  | block
  | vote
  | account (key : Pubkey)
  | dataSize
  | transactions
  | signatures
  | secp256k1Signatures
  | ed25519Signatures
deriving DecidableEq

def amount (t : CostTracker) : CostTotal → Nat
  | .block => t.blockCost
  | .vote => t.voteCost
  | .account key => t.costByWritableAccounts[key]?.getD 0
  | .dataSize => t.accountDataSize
  | .transactions => t.transactionCount
  | .signatures => t.transactionSignatureCount
  | .secp256k1Signatures => t.secp256k1InstructionSignatureCount
  | .ed25519Signatures => t.ed25519InstructionSignatureCount

/-- The totals that the execution cost of a transaction goes into. -/
def bearsCost (tx : TransactionCost) : CostTotal → Bool
  | .block => true
  | .vote => tx.isSimpleVote
  | .account key => tx.writableAccounts.contains key
  | _ => false

/-- What a transaction adds to the totals that its execution cost does not go into. -/
def fixedShare (tx : TransactionCost) : CostTotal → Nat
  | .block | .vote | .account _ => 0
  | .dataSize => tx.accountDataSize
  | .transactions => 1
  | .signatures => tx.numTransactionSignatures
  | .secp256k1Signatures => tx.numSecp256k1InstructionSignatures
  | .ed25519Signatures => tx.numEd25519InstructionSignatures

def costShare (tx : TransactionCost) (cost : Nat) (a : CostTotal) : Nat :=
  if bearsCost tx a then cost else fixedShare tx a

structure CostLimits where
  account : Nat
  block : Nat
  vote : Nat

def limitsOf (t : CostTracker) : CostLimits :=
  ⟨t.accountCostLimit, t.blockCostLimit, t.voteCostLimit⟩

/-- No limit is above that of the block, which a saturated sum exceeds. -/
structure CostLimits.Valid (limits : CostLimits) : Prop where
  account_le : limits.account ≤ limits.block
  vote_le : limits.vote ≤ limits.block
  block_lt : limits.block < u64Max

/-- The limit that `would_fit` holds a total to. The counters have none. -/
def limitOf (limits : CostLimits) : CostTotal → Option Nat
  | .block => some limits.block
  | .vote => some limits.vote
  | .account _ => some limits.account
  | .dataSize => some maxBlockAccountsDataSizeDelta
  | _ => none

/-! ## What the operations do to a total -/

lemma saturatingAddU64_of_le {a b : Nat} (h : a + b ≤ u64Max) : saturatingAddU64 a b = a + b :=
  min_eq_left h

variable (op : Nat → Nat → Nat)

lemma getD_foldl_insert (n : Nat) {keys : List Pubkey}
    (hnodup : keys.Nodup) (m : TreeMap Pubkey Nat) (k : Pubkey) :
    ((keys.foldl (fun costs key => costs.insert key (op (costs[key]?.getD 0) n)) m)[k]?).getD 0 =
      if keys.contains k then op (m[k]?.getD 0) n else m[k]?.getD 0 := by
  induction keys generalizing m with
  | nil => simp
  | cons key keys ih =>
    obtain ⟨hfresh, hrest⟩ := nodup_cons.1 hnodup
    rw [foldl_cons, ih hrest, getElem?_insert_eq]
    by_cases hk : k = key
    · subst hk
      simp [hfresh]
    · simp [hk]

lemma amount_applyExecutionCost (t : CostTracker)
    (hnodup : tx.writableAccounts.Nodup) (n : Nat) (a : CostTotal) :
    amount (t.applyExecutionCost op tx n) a =
      if bearsCost tx a then op (amount t a) n else amount t a := by
  cases a with
  | account key => exact getD_foldl_insert op n hnodup t.costByWritableAccounts key
  | _ => rfl

lemma amount_addTransactionCost (hnodup : tx.writableAccounts.Nodup)
    (hfits : amount t a + costShare tx tx.sum a ≤ u64Max) :
    amount (t.addTransactionCost tx) a = amount t a + costShare tx tx.sum a := by
  have hcost := amount_applyExecutionCost saturatingAddU64 t hnodup tx.sum a
  unfold costShare at hfits ⊢
  cases a with
  | block => exact saturatingAddU64_of_le hfits
  | vote | account =>
    refine hcost.trans ?_
    split at hfits
    case isTrue h => rw [if_pos h, if_pos h, saturatingAddU64_of_le hfits]
    case isFalse h => rw [if_neg h, if_neg h]; rfl
  | _ => exact saturatingAddU64_of_le hfits

lemma amount_remove (t : CostTracker) (hnodup : tx.writableAccounts.Nodup) (a : CostTotal) :
    amount (t.remove tx) a = amount t a - costShare tx tx.sum a := by
  have hcost := amount_applyExecutionCost (· - ·) t hnodup tx.sum a
  unfold costShare
  cases a with
  | vote | account => exact hcost.trans (by split <;> rfl)
  | _ => rfl

lemma amount_updateExecutionCost (t : CostTracker) (tx : TransactionCost)
    (hnodup : tx.writableAccounts.Nodup) (hactual : actual ≤ tx.programsExecutionCost)
    (a : CostTotal) :
    amount (t.updateExecutionCost tx actual) a =
      if bearsCost tx a then amount t a - (tx.programsExecutionCost - actual)
      else amount t a := by
  unfold updateExecutionCost
  dsimp only
  rcases Nat.lt_or_eq_of_le hactual with hlt | heq
  · rw [Nat.compare_eq_lt.2 hlt]
    exact amount_applyExecutionCost (· - ·) t hnodup _ a
  · rw [heq, Nat.compare_eq_eq.2 rfl, Nat.sub_self, Nat.sub_zero, ite_self]

lemma amount_add_le_limit (hfit : t.wouldFit tx = .ok ()) (hvalid : (limitsOf t).Valid)
    (hlimit : limitOf (limitsOf t) a = some n) (hle : amount t a ≤ n) :
    amount t a + costShare tx tx.sum a ≤ n := by
  obtain ⟨haccount, hvote, hblock⟩ := hvalid
  dsimp only [limitsOf] at haccount hvote hblock
  -- a saturated sum is above every limit, so a check that passes bounds the exact sum
  have hexact : ∀ {x y m : Nat}, m < u64Max → ¬ m < saturatingAddU64 x y → x + y ≤ m := by
    intro x y m hm hcheck
    unfold saturatingAddU64 at hcheck
    omega
  unfold wouldFit at hfit
  dsimp only at hfit
  split_ifs at hfit with h1 h2 h3 h4 h5
  unfold costShare
  cases a with
  | block => exact Option.some.inj hlimit ▸ hexact hblock h2
  | vote =>
    obtain rfl : t.voteCostLimit = n := Option.some.inj hlimit
    split
    case isTrue h => exact hexact (by omega) fun hlt => h1 ⟨h, hlt⟩
    case isFalse => exact hle
  | account key =>
    obtain rfl : t.accountCostLimit = n := Option.some.inj hlimit
    split
    case isFalse => exact hle
    case isTrue h =>
      have hkey := any_eq_false.1 (Bool.eq_false_iff.2 h5) key (contains_iff_mem.1 h)
      change t.costByWritableAccounts[key]?.getD 0 + tx.sum ≤ _
      rcases hget : t.costByWritableAccounts[key]? with _ | chained
      · simpa using h3
      · rw [hget] at hkey
        exact hexact (by omega) (by simpa using hkey)
  | dataSize => exact Option.some.inj hlimit ▸ hexact (by decide) h4
  | _ => exact absurd hlimit nofun

/-! ## Runs -/

/-- A transaction in the block: what was estimated for it, and the execution units it used
once they are known. -/
structure LiveTransaction where
  cost : TransactionCost
  actual : Option Nat

def LiveTransaction.current (e : LiveTransaction) : Nat :=
  match e.actual with
  | none => e.cost.sum
  | some actual => e.cost.sum - (e.cost.programsExecutionCost - actual)

/-- The trackers that calls can lead to from fresh limits, with the transactions that are in
the block. The transactions that are tried all satisfy `tried`. -/
inductive CostRun (limits : CostLimits) (tried : TransactionCost → Prop) :
    CostTracker → List LiveTransaction → Prop
  | start : CostRun limits tried
      { accountCostLimit := limits.account
        blockCostLimit := limits.block
        voteCostLimit := limits.vote } []
  | tryAdd {t : CostTracker} {live : List LiveTransaction} {tx : TransactionCost}
      (hrun : CostRun limits tried t live) (htried : tried tx)
      (hnodup : tx.writableAccounts.Nodup) :
      CostRun limits tried (t.tryAdd tx).2
        (match (t.tryAdd tx).1 with
          | .ok _ => ⟨tx, none⟩ :: live
          | .error _ => live)
  | remove {t : CostTracker} {before after : List LiveTransaction} {tx : TransactionCost}
      (hrun : CostRun limits tried t (before ++ ⟨tx, none⟩ :: after)) :
      CostRun limits tried (t.remove tx) (before ++ after)
  | update {t : CostTracker} {before after : List LiveTransaction} {tx : TransactionCost}
      {actual : Nat} (hrun : CostRun limits tried t (before ++ ⟨tx, none⟩ :: after))
      (hactual : actual ≤ tx.programsExecutionCost) :
      CostRun limits tried (t.updateExecutionCost tx actual)
        (before ++ ⟨tx, some actual⟩ :: after)

def totalOf (live : List LiveTransaction) (a : CostTotal) : Nat :=
  (live.map fun e => costShare e.cost e.current a).sum

lemma total_split (before after : List LiveTransaction) (e : LiveTransaction) (a : CostTotal) :
    totalOf (before ++ e :: after) a =
      costShare e.cost e.current a + totalOf (before ++ after) a := by
  simp only [totalOf, map_append, map_cons, sum_append, sum_cons]
  omega

/-- A transaction that the tracker took, with a cost that did not saturate. -/
structure LiveOk (tried : TransactionCost → Prop) (e : LiveTransaction) : Prop where
  tried : tried e.cost
  nodup : e.cost.writableAccounts.Nodup
  sum_lt : e.cost.sum < u64Max
  actual_le : ∀ n, e.actual = some n → n ≤ e.cost.programsExecutionCost

lemma sum_parts {u : UsageCostDetails} (h : u.sum < u64Max) :
    u.sum = u.signatureCost + u.writeLockCost + u.dataBytesCost + u.programsExecutionCost +
      u.loadedAccountsDataSizeCost := by
  unfold UsageCostDetails.sum saturatingAddU64 at *
  omega

lemma signature_add_execution_le_sum (h : tx.sum < u64Max) :
    tx.signatureCost + tx.programsExecutionCost ≤ tx.sum := by
  cases tx with
  | simpleVote _ => change 720 + 2100 ≤ 3428; omega
  | transaction u =>
    have hparts := sum_parts h
    change u.signatureCost + u.programsExecutionCost ≤ u.sum
    omega

lemma costShare_update (hsum : tx.sum < u64Max) (actual : Nat) (a : CostTotal) :
    costShare tx tx.sum a = costShare tx (LiveTransaction.current ⟨tx, some actual⟩) a +
      if bearsCost tx a then tx.programsExecutionCost - actual else 0 := by
  have hexec := signature_add_execution_le_sum hsum
  simp only [costShare, LiveTransaction.current]
  split <;> omega

/-! ## One step -/

section Step

variable {tried : TransactionCost → Prop} {before after : List LiveTransaction}

lemma total_add (hok : tx.writableAccounts.Nodup) (heq : amount t a = totalOf live a)
    (hfits : amount t a + costShare tx tx.sum a ≤ u64Max) :
    amount (t.addTransactionCost tx) a = totalOf (⟨tx, none⟩ :: live) a := by
  rw [amount_addTransactionCost hok hfits, heq, Nat.add_comm]
  rfl

lemma costShare_le_amount (heq : amount t a = totalOf (before ++ ⟨tx, none⟩ :: after) a) :
    costShare tx tx.sum a ≤ amount t a := by
  rw [heq, total_split]
  exact Nat.le_add_right _ _

lemma total_remove (hok : LiveOk tried ⟨tx, none⟩)
    (heq : amount t a = totalOf (before ++ ⟨tx, none⟩ :: after) a) :
    amount (t.remove tx) a = totalOf (before ++ after) a := by
  rw [amount_remove t hok.nodup, heq, total_split]
  exact Nat.add_sub_cancel_left _ _

lemma total_update (hok : LiveOk tried ⟨tx, none⟩) (hactual : actual ≤ tx.programsExecutionCost)
    (heq : amount t a = totalOf (before ++ ⟨tx, none⟩ :: after) a) :
    amount (t.updateExecutionCost tx actual) a =
      totalOf (before ++ ⟨tx, some actual⟩ :: after) a := by
  have hsum : tx.sum < u64Max := hok.sum_lt
  have hbefore : amount t a = costShare tx tx.sum a + totalOf (before ++ after) a :=
    heq.trans (total_split before after ⟨tx, none⟩ a)
  rw [total_split]
  change _ = costShare tx (LiveTransaction.current ⟨tx, some actual⟩) a + totalOf (before ++ after) a
  rw [amount_updateExecutionCost t tx hok.nodup hactual, hbefore, costShare_update hsum actual]
  split <;> omega

end Step

/-! ## Whole runs -/

section Runs

variable {limits : CostLimits} {tried : TransactionCost → Prop}

lemma tryAdd_cases (t : CostTracker) (tx : TransactionCost) :
    (t.wouldFit tx = .ok () ∧ (t.tryAdd tx).1 = .ok (t.addTransactionCost tx).blockCost ∧
      (t.tryAdd tx).2 = t.addTransactionCost tx) ∨
    ∃ e, (t.tryAdd tx).1 = .error e ∧ (t.tryAdd tx).2 = t := by
  unfold tryAdd
  rcases t.wouldFit tx with e | u
  · exact .inr ⟨e, rfl, rfl⟩
  · exact .inl ⟨rfl, rfl, rfl⟩

lemma CostRun.added (hrun : CostRun limits tried t live) (htried : tried tx)
    (hnodup : tx.writableAccounts.Nodup) (hfit : t.wouldFit tx = .ok ()) :
    CostRun limits tried (t.addTransactionCost tx) (⟨tx, none⟩ :: live) := by
  have hstep := CostRun.tryAdd hrun htried hnodup
  simpa only [CostTracker.tryAdd, hfit] using hstep

lemma sum_lt_of_wouldFit (hfit : t.wouldFit tx = .ok ()) (hlimit : t.accountCostLimit < u64Max) :
    tx.sum < u64Max := by
  unfold wouldFit at hfit
  dsimp only at hfit
  split_ifs at hfit
  omega

/-- What holds of every tracker that a run leads to, whatever transactions are tried. -/
structure WithinLimits (limits : CostLimits) (tried : TransactionCost → Prop) (t : CostTracker)
    (live : List LiveTransaction) : Prop where
  limits_eq : limitsOf t = limits
  live_ok : ∀ e ∈ live, LiveOk tried e
  exact : ∀ a n, limitOf limits a = some n → amount t a = totalOf live a
  bounded : ∀ a n, limitOf limits a = some n → amount t a ≤ n

lemma limitOf_lt (hvalid : limits.Valid) (h : limitOf limits a = some n) : n < u64Max := by
  obtain ⟨haccount, hvote, hblock⟩ := hvalid
  cases a <;> simp only [limitOf, Option.some.injEq, reduceCtorEq] at h <;> subst h
  case dataSize => decide
  all_goals omega

lemma CostRun.withinLimits (hvalid : limits.Valid) (hrun : CostRun limits tried t live) :
    WithinLimits limits tried t live := by
  induction hrun with
  | start =>
    refine ⟨rfl, nofun, fun a n _ => ?_, fun a n _ => ?_⟩
    · cases a <;> simp [amount, totalOf]
    · cases a <;> simp [amount]
  | @tryAdd t live tx hrun htried hnodup ih =>
    rcases tryAdd_cases t tx with ⟨hfit, hres, htracker⟩ | ⟨e, hres, htracker⟩
    · rw [hres, htracker]
      obtain ⟨rfl, hlive, hexact, hbounded⟩ := ih
      have hle : ∀ a n, limitOf (limitsOf t) a = some n → amount t a + costShare tx tx.sum a ≤ n :=
        fun a n hn => amount_add_le_limit hfit hvalid hn (hbounded a n hn)
      have hfits : ∀ a n, limitOf (limitsOf t) a = some n →
          amount t a + costShare tx tx.sum a ≤ u64Max :=
        fun a n hn => (hle a n hn).trans (limitOf_lt hvalid hn).le
      refine ⟨rfl, ?_, fun a n hn => ?_, fun a n hn => ?_⟩
      · rintro e (_ | ⟨_, he⟩)
        · exact ⟨htried, hnodup,
            sum_lt_of_wouldFit hfit (hvalid.account_le.trans_lt hvalid.block_lt), nofun⟩
        · exact hlive e he
      · exact total_add hnodup (hexact a n hn) (hfits a n hn)
      · rw [amount_addTransactionCost hnodup (hfits a n hn)]
        exact hle a n hn
    · rw [hres, htracker]
      exact ih
  | @remove t before after tx hrun ih =>
    have hok := ih.live_ok ⟨tx, none⟩ (by simp)
    refine ⟨ih.limits_eq, fun e he => ih.live_ok e ?_,
      fun a n hn => total_remove hok (ih.exact a n hn), fun a n hn => ?_⟩
    · rw [mem_append] at he
      rw [mem_append, mem_cons]
      tauto
    · rw [amount_remove t hok.nodup]
      exact (Nat.sub_le _ _).trans (ih.bounded a n hn)
  | @update t before after tx actual hrun hactual ih =>
    have hok := ih.live_ok ⟨tx, none⟩ (by simp)
    have hlimits : limitsOf (t.updateExecutionCost tx actual) = limitsOf t := by
      unfold updateExecutionCost
      dsimp only
      split <;> rfl
    refine ⟨hlimits.trans ih.limits_eq, fun e he => ?_,
      fun a n hn => total_update hok hactual (ih.exact a n hn), fun a n hn => ?_⟩
    · rw [mem_append, mem_cons] at he
      rcases he with he | rfl | he
      · exact ih.live_ok e (mem_append_left _ he)
      · exact ⟨hok.tried, hok.nodup, hok.sum_lt, fun n hn => Option.some.inj hn ▸ hactual⟩
      · exact ih.live_ok e (mem_append_right _ (mem_cons_of_mem _ he))
    · rw [amount_updateExecutionCost t _ hok.nodup hactual]
      have hle := ih.bounded a n hn
      split <;> omega

/-- What the cost model gives every transaction: it has a signature, and its signature cost
counts each of its signatures. -/
structure SignaturesPaid (tx : TransactionCost) : Prop where
  signed : 1 ≤ tx.numTransactionSignatures
  transaction : tx.numTransactionSignatures ≤ tx.signatureCost
  secp256k1 : tx.numSecp256k1InstructionSignatures ≤ tx.signatureCost
  ed25519 : tx.numEd25519InstructionSignatures ≤ tx.signatureCost

lemma costShare_le_current {e : LiveTransaction} (hok : LiveOk tried e)
    (hpaid : SignaturesPaid e.cost) (ha : limitOf limits a = none) :
    costShare e.cost e.current a ≤ e.current := by
  have hcurrent : e.cost.signatureCost ≤ e.current := by
    have hexec := signature_add_execution_le_sum hok.sum_lt
    unfold LiveTransaction.current
    split <;> omega
  obtain ⟨h1, h2, h3, h4⟩ := hpaid
  cases a <;> simp only [limitOf, reduceCtorEq] at ha <;>
    simp only [costShare, bearsCost, fixedShare, Bool.false_eq_true, if_false] <;> omega

lemma total_le_block (hok : ∀ e ∈ live, LiveOk tried e)
    (hpaid : ∀ tx, tried tx → SignaturesPaid tx) (ha : limitOf limits a = none) :
    totalOf live a ≤ totalOf live .block :=
  sum_le_sum fun e he => costShare_le_current (hok e he) (hpaid _ (hok e he).tried) ha

/-- The totals that are sums: those with a limit, and when every signature is paid for the
counters too, since they stay below the block's cost. -/
def Tracked (limits : CostLimits) (tried : TransactionCost → Prop) (a : CostTotal) : Prop :=
  limitOf limits a ≠ none ∨ ∀ tx, tried tx → SignaturesPaid tx

lemma CostRun.total_le (hvalid : limits.Valid) (hrun : CostRun limits tried t live)
    (ha : Tracked limits tried a) : totalOf live a ≤ u64Max := by
  have hinv := hrun.withinLimits hvalid
  have hlimited : ∀ b n, limitOf limits b = some n → totalOf live b ≤ u64Max := by
    intro b n hn
    rw [← hinv.exact b n hn]
    exact (hinv.bounded b n hn).trans (limitOf_lt hvalid hn).le
  rcases hlimit : limitOf limits a with _ | n
  · have hpaid := ha.resolve_left (not_not.2 hlimit)
    exact (total_le_block hinv.live_ok hpaid hlimit).trans (hlimited .block limits.block rfl)
  · exact hlimited a n hlimit

lemma CostRun.exact (hvalid : limits.Valid) (hrun : CostRun limits tried t live)
    (ha : Tracked limits tried a) : amount t a = totalOf live a := by
  induction hrun with
  | start => cases a <;> simp [amount, totalOf]
  | @tryAdd t live tx hrun htried hnodup ih =>
    rcases tryAdd_cases t tx with ⟨hfit, hres, htracker⟩ | ⟨e, hres, htracker⟩
    · rw [hres, htracker]
      have hle := (hrun.added htried hnodup hfit).total_le hvalid ha
      exact total_add hnodup ih (by rw [ih, Nat.add_comm]; exact hle)
    · rw [hres, htracker]
      exact ih
  | @remove t before after tx hrun ih =>
    exact total_remove ((hrun.withinLimits hvalid).live_ok _ (by simp)) ih
  | @update t before after tx actual hrun hactual ih =>
    exact total_update ((hrun.withinLimits hvalid).live_ok _ (by simp)) hactual ih

/-- No operation on a total saturates: not the addition of a transaction that fits, not the
subtraction of one that is removed or updated. -/
structure Unsaturated (tried : TransactionCost → Prop) (t : CostTracker)
    (live : List LiveTransaction) (a : CostTotal) : Prop where
  add : ∀ tx, tried tx → tx.writableAccounts.Nodup → t.wouldFit tx = .ok () →
    amount t a + costShare tx tx.sum a ≤ u64Max
  remove : ∀ tx, ⟨tx, none⟩ ∈ live → costShare tx tx.sum a ≤ amount t a
  update : ∀ tx, ⟨tx, none⟩ ∈ live → bearsCost tx a = true →
    tx.programsExecutionCost ≤ amount t a

end Runs

/-! ## Where the totals stop being sums -/

def spending (units signatures : Nat) : TransactionCost :=
  .transaction { programsExecutionCost := units, numTransactionSignatures := signatures }

def defaultLimits : CostLimits := ⟨12000000, 48000000, 36000000⟩

end Nuah.Proofs
