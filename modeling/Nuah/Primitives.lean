import Nuah.Lib.ExceptLoops

/-!
# Machine words, identifiers and faults

Slots, epochs and lamports are natural numbers, with the saturating and checked operations of
`u64` and `u32` written out. Pubkeys and hashes are compared bytewise, that is, as big-endian
numbers.
-/

namespace Nuah

abbrev Slot := Nat
abbrev Epoch := Nat
abbrev UnixTimestamp := Int
abbrev Pubkey := Nat
abbrev Hash := Nat

def u64Max : Nat := 2 ^ 64 - 1
def u32Max : Nat := 2 ^ 32 - 1
def u8Max : Nat := 2 ^ 8 - 1

def saturatingAddU64 (a b : Nat) : Nat := min (a + b) u64Max
def saturatingAddU32 (a b : Nat) : Nat := min (a + b) u32Max
def checkedAddU64 (a b : Nat) : Option Nat := if a + b ≤ u64Max then some (a + b) else none
def checkedSub (a b : Nat) : Option Nat := if b ≤ a then some (a - b) else none
def checkedDiv (a b : Nat) : Option Nat := if b = 0 then none else some (a / b)

def u128Max : Nat := 2 ^ 128 - 1

def checkedAddU128 (a b : Nat) : Option Nat := if a + b ≤ u128Max then some (a + b) else none
def checkedMulU128 (a b : Nat) : Option Nat := if a * b ≤ u128Max then some (a * b) else none

/-- What a call can end with instead of a value: an error of the function's own type, or
a panic (a failed `assert!`, an index out of bounds, an `unwrap` of nothing). -/
inductive Fault (ε : Type) where
  | err (e : ε)
  | panic
deriving Repr, DecidableEq

/-- `l[i]` of a slice: an index out of bounds panics. -/
def indexOrPanic {ε α : Type} (l : List α) (i : Nat) : Except (Fault ε) α :=
  match l[i]? with
  | some a => .ok a
  | none => .error .panic

/-- `assert!(p)`. -/
def assertOrPanic {ε : Type} (p : Bool) : Except (Fault ε) Unit :=
  if p then .ok () else .error .panic

export ExceptLoops (bind_eq_ok toOption_eq_some ite_error_eq_ok)

lemma checkedAddU64_eq_some {a b c : Nat} :
    checkedAddU64 a b = some c ↔ a + b ≤ u64Max ∧ c = a + b := by
  unfold checkedAddU64
  split <;> simp_all [eq_comm]

lemma checkedSub_eq_some {a b c : Nat} : checkedSub a b = some c ↔ b ≤ a ∧ c = a - b := by
  unfold checkedSub
  split <;> simp_all [eq_comm]

lemma checkedAddU128_eq_some {a b c : Nat} :
    checkedAddU128 a b = some c ↔ a + b ≤ u128Max ∧ c = a + b := by
  unfold checkedAddU128
  split <;> simp_all [eq_comm]

lemma indexOrPanic_eq_ok {ε α : Type} {l : List α} {i : Nat} {a : α} :
    (indexOrPanic l i : Except (Fault ε) α) = .ok a ↔ l[i]? = some a := by
  unfold indexOrPanic
  cases l[i]? <;> simp

lemma assertOrPanic_eq_ok {ε : Type} {p : Bool} {u : Unit} :
    (assertOrPanic p : Except (Fault ε) Unit) = .ok u ↔ p = true := by
  unfold assertOrPanic
  cases p <;> simp

/-- The features whose activation the modelled code asks for. -/
inductive Feature where
  | timelyVoteCredits
  | deprecateUnusedLegacyVotePlumbing
  | stakeRedelegateInstruction
  | stakeRaiseMinimumDelegationTo1Sol
  | disableRentFeesCollection
deriving Repr, DecidableEq

structure FeatureSet where
  isActive : Feature → Bool

end Nuah
