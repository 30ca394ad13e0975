import Nuah.ProgramCache

/-!
# Bank forks

The banks in memory by slot, and for every slot that is a bank or an ancestor of one the
slots of the banks below it. The order in which a hash map lists its keys is a parameter.
-/

namespace Nuah

open Std (TreeMap)

/-- What the forks read of a bank. A bank is newer than its ancestors. -/
structure ForkBank where
  slot : Slot
  properAncestors : List Slot
  nodup : properAncestors.Nodup
  lt_slot : ∀ a ∈ properAncestors, a < slot

structure BankForks where
  banks : TreeMap Slot ForkBank
  descendants : TreeMap Slot (Finset Slot)
  root : Slot

namespace BankForks

def addDescendant (slot : Slot) (descendants : TreeMap Slot (Finset Slot)) (parent : Slot) :
    TreeMap Slot (Finset Slot) :=
  descendants.insert parent (insert slot (descendants[parent]?.getD ∅))

/-- The entries that `new_rw_arc` and `insert` make for a bank. -/
def addDescendants (descendants : TreeMap Slot (Finset Slot)) (bank : ForkBank) :
    TreeMap Slot (Finset Slot) :=
  bank.properAncestors.foldl (addDescendant bank.slot)
    (descendants.insert bank.slot (descendants[bank.slot]?.getD ∅))

/-- The parents in memory are entered until one is there already. -/
def insertParents : List ForkBank → TreeMap Slot ForkBank → TreeMap Slot ForkBank
  | [], banks => banks
  | parent :: parents, banks =>
    if banks.contains parent.slot then banks.insert parent.slot parent
    else insertParents parents (banks.insert parent.slot parent)

def newRwArc (rootBank : ForkBank) (parents : List ForkBank) : BankForks where
  banks := insertParents parents ((∅ : TreeMap Slot ForkBank).insert rootBank.slot rootBank)
  descendants := addDescendants ∅ rootBank
  root := rootBank.slot

/-- Here and below `none` is a panic. -/
def insert (f : BankForks) (bank : ForkBank) : Option BankForks := do
  guard (f.banks[bank.slot]? |>.isNone)
  return { f with
    banks := f.banks.insert bank.slot bank
    descendants := addDescendants f.descendants bank }

def removeDescendant (banks : TreeMap Slot ForkBank) (slot : Slot)
    (descendants : TreeMap Slot (Finset Slot)) (parent : Slot) :
    Option (TreeMap Slot (Finset Slot)) := do
  let entry := (← descendants[parent]?).erase slot
  return if entry = ∅ ∧ banks[parent]?.isNone then descendants.erase parent
    else descendants.insert parent entry

def remove (f : BankForks) (slot : Slot) : Option BankForks :=
  match f.banks[slot]? with
  | none => some f
  | some bank => do
    let banks := f.banks.erase slot
    let descendants ← bank.properAncestors.foldlM (removeDescendant banks slot) f.descendants
    let entry ← descendants[slot]?
    return { f with
      banks
      descendants := if entry = ∅ then descendants.erase slot else descendants }

/-- The closure of `prune_non_rooted`. -/
def isKept (f : BankForks) (root highestSuperMajorityRoot slot : Slot) : Option Bool :=
  if slot = root then some true else do
    let descendants ← f.descendants[root]?
    if slot ∈ descendants then some true
    else if slot < root ∧ highestSuperMajorityRoot ≤ slot then
      return decide (root ∈ (← f.descendants[slot]?))
    else some false

def pruneNonRooted (f : BankForks) (root : Slot) (highestSuperMajorityRoot : Option Slot)
    (keys : List Slot) : Option BankForks := do
  let highestSuperMajorityRoot := highestSuperMajorityRoot.getD root
  let kept ← keys.mapM fun slot => (f.isKept root highestSuperMajorityRoot slot).map (slot, ·)
  (kept.filter (!·.2)).foldlM (fun f p => f.remove p.1) f

/-- What `set_root` does to the forks. -/
def setRoot (f : BankForks) (root : Slot) (highestSuperMajorityRoot : Option Slot)
    (keys : List Slot) : Option BankForks :=
  { f with root }.pruneNonRooted root highestSuperMajorityRoot keys

def highestSlot (f : BankForks) : Option Slot := (f.banks.toList.map (·.2.slot)).max?

def relationship (f : BankForks) (a b : Slot) : Option BlockRelation := do
  let highest ← f.highestSlot
  return if (f.root ≤ a ∧ a ≤ highest) ∧ f.root ≤ b ∧ b ≤ highest then
    if a = b then .equal
    -- `ancestors` are the proper ones and the slot itself
    else if f.banks[b]?.any fun bank => a = bank.slot || bank.properAncestors.contains a then .ancestor
    else if f.descendants[b]?.any fun slots => a ∈ slots then .descendant
    else .unrelated
  else .unknown

end BankForks

end Nuah
