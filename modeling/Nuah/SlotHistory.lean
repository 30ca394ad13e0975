import Nuah.Primitives

/-!
# The slot history

Which slots there were, of about the last million (`sdk/program/src/slot_history.rs`). A bit is found
by its index, and only indexes below `MAX_ENTRIES` are used. What would panic yields nothing.
-/

namespace Nuah

structure SlotHistory where
  bits : Nat → Bool
  nextSlot : Nat

namespace SlotHistory

def maxEntries : Nat := 1024 * 1024

inductive Check where
  | future
  | tooOld
  | found
  | notFound
deriving Repr, DecidableEq

def default : SlotHistory := ⟨Function.update (fun _ => false) 0 true, 1⟩

variable (h : SlotHistory)

/-- All bits of the full blocks are cleared. -/
def clearBlocks : Nat → Bool := fun i => if i / 64 < maxEntries / 64 then false else h.bits i

def clearSkipped (slot : Nat) : Nat → Bool :=
  (List.range' h.nextSlot (slot - h.nextSlot)).foldl
    (fun bits skipped => Function.update bits (skipped % maxEntries) false) h.bits

def add (slot : Nat) : Option SlotHistory := do
  let bits := if h.nextSlot < slot ∧ maxEntries ≤ slot - h.nextSlot then h.clearBlocks
    else h.clearSkipped slot
  let nextSlot ← checkedAddU64 slot 1
  some ⟨Function.update bits (slot % maxEntries) true, nextSlot⟩

def oldest : Nat := h.nextSlot - maxEntries

def newest : Nat := h.nextSlot - 1

def check (slot : Nat) : Check :=
  if h.newest < slot then .future
  else if slot < h.oldest then .tooOld
  else if h.bits (slot % maxEntries) then .found
  else .notFound

end SlotHistory

end Nuah
