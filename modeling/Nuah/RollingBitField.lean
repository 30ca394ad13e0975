import Nuah.Primitives

/-!
# Rolling bit fields

A set of slots (`accounts-db/src/rolling_bit_field.rs`): a ring of bits for the keys of a sliding
window, and a set for older keys. The keys of the hash set are listed in the order of its iteration.
What would panic yields nothing.
-/

namespace Nuah

structure RollingBitField where
  maxWidth : Nat
  min : Nat
  maxExclusive : Nat
  bits : List Bool
  count : Nat
  excess : List Nat
deriving Repr, DecidableEq

namespace RollingBitField

def new (maxWidth : Nat) : Option RollingBitField :=
  if 0 < maxWidth ∧ maxWidth = 2 ^ maxWidth.log2 then
    some ⟨maxWidth, 0, 0, List.replicate maxWidth false, 0, []⟩
  else none

variable (s : RollingBitField)

def getAddress (key : Nat) : Nat := key % s.maxWidth

/-- The result may be that of another key, if the key is not in range. -/
def containsAssumeInRange (key : Nat) : Bool := s.bits[s.getAddress key]?.getD false

def setBit (key : Nat) (value : Bool) : RollingBitField :=
  { s with bits := s.bits.set (s.getAddress key) value }

def allItemsInExcess : Bool := s.excess.length == s.count

def contains (key : Nat) : Bool :=
  if key < s.maxExclusive then
    if s.min ≤ key then s.containsAssumeInRange key else s.excess.contains key
  else false

def len : Nat := s.count

def maxInclusive : Nat := s.maxExclusive - 1

def min? : Option Nat :=
  if s.len = 0 then none
  else if s.excess = [] then some s.min
  else if s.allItemsInExcess then s.excess.min?
  else some (Min.min s.min (s.excess.min?.getD u64Max))

/-- `start..max_exclusive`. -/
def keysFrom (start : Nat) : List Nat := List.range' start (s.maxExclusive - start)

def itemsInRange : List Nat := (s.keysFrom s.min).filter s.containsAssumeInRange

def getAll : List Nat := s.excess ++ s.itemsInRange

def getAllLessThan (maxSlotExclusive : Slot) : List Nat :=
  s.excess.filter (· < maxSlotExclusive) ++
    ((s.keysFrom s.min).takeWhile (· < maxSlotExclusive)).filter s.containsAssumeInRange

/-- The loop of `get_prior`, which does not reach slot 0 from above. -/
def priorFrom (min : Nat) : Nat → Option Nat
  | 0 => if s.contains 0 then some 0 else none
  | slot + 1 =>
    if s.contains (slot + 1) then some (slot + 1)
    else if slot = 0 ∨ slot < min then none
    else priorFrom min slot

def getPrior (maxSlotExclusive : Slot) : Option Nat :=
  s.min?.bind fun min => s.priorFrom min (maxSlotExclusive - 1)

/-- After the removal of a key, `min` becomes the least key that is left in the bits, if there is
one. -/
def purge (key : Nat) : RollingBitField :=
  if 0 < s.count ∧ s.allItemsInExcess = false then
    if key = s.min then
      match (s.keysFrom (s.min + 1)).find? s.containsAssumeInRange with
      | some next => { s with min := next }
      | none => s
    else s
  else { s with min := s.maxExclusive }

def moveMinToExcess : Option RollingBitField :=
  if s.min ∈ s.excess then none
  else
    let moved := { s with excess := s.excess ++ [s.min] }
    some ((moved.setBit s.min false).purge s.min)

/-- Least keys are moved until the window reaches to the new maximum, or until there are no more.
Returned is also whether there are none left. -/
def makeRoom : Nat → RollingBitField → Nat → Option (RollingBitField × Bool)
  | 0, _, _ => none
  | fuel + 1, s, newMax =>
    if newMax - s.min ≤ s.maxWidth then some (s, false)
    else do
      let s ← s.moveMinToExcess
      if s.allItemsInExcess then some (s, true) else makeRoom fuel s newMax

def updateBits (key : Nat) (bitsEmpty : Bool) : Option RollingBitField :=
  if s.containsAssumeInRange key then some s
  else do
    let next ← checkedAddU64 key 1
    let s := s.setBit key true
    if bitsEmpty then some { s with min := key, maxExclusive := next, count := s.count + 1 }
    else do
      let min := Min.min s.min key
      let maxExclusive := max s.maxExclusive next
      let reach ← checkedAddU64 min s.maxWidth
      if maxExclusive ≤ reach then
        some { s with min := min, maxExclusive := maxExclusive, count := s.count + 1 }
      else none

def insert (key : Nat) : Option RollingBitField :=
  if s.count = 0 ∨ s.allItemsInExcess = true then s.updateBits key true
  else if key < s.min then
    some (if key ∈ s.excess then s else
      { s with excess := s.excess ++ [key], count := s.count + 1 })
  else if key < s.maxExclusive then s.updateBits key false
  else do
    let newMax ← checkedAddU64 key 1
    let (s, bitsEmpty) ← makeRoom (s.maxExclusive - s.min) s newMax
    s.updateBits key bitsEmpty

def remove (key : Nat) : Bool × RollingBitField :=
  if s.min ≤ key then
    if key < s.maxExclusive then
      if s.containsAssumeInRange key then
        (true, (({ s with count := s.count - 1 } : RollingBitField).setBit key false).purge key)
      else (false, s)
    else (false, s)
  else if key ∈ s.excess then
    (true, { s with excess := s.excess.erase key, count := s.count - 1 })
  else (false, s)

end RollingBitField

end Nuah
