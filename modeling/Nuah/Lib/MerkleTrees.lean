import Mathlib

/-!
# Climbing a Merkle tree

A proof lists the entries of the siblings of a leaf from the leaf upwards, an entry being the part
of a node that a proof holds. Climbing joins them to the leaf, up to the root.
-/

namespace MerkleTrees

variable {α ε : Type} (entry : α → ε) (join : ε → ε → α)

/-- The entries that are joined above a node at a position, with the entry of its sibling. -/
def joined (index : Nat) (node : α) (other : ε) : ε × ε :=
  if index % 2 = 0 then (entry node, other) else (other, entry node)

def climb : Nat → α → List ε → Nat × α
  | index, node, [] => (index, node)
  | index, node, other :: proof =>
    let q := joined entry index node other
    climb (index / 2) (join q.1 q.2) proof

end MerkleTrees
