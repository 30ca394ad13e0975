import Nuah.Primitives

/-!
# Heaviest subtree fork choice

The block tree with the stake voted on each fork
(`core/src/consensus/heaviest_subtree_fork_choice.rs`). Hash maps and `BTreeMap`s are
`TreeMap`s, a `BTreeSet` is a list in increasing order. A call that panics returns `none`.
-/

namespace Nuah

open Std (TreeMap)

structure SlotHashKey where
  slot : Slot
  hash : Hash
deriving DecidableEq, Repr

instance : LinearOrder SlotHashKey :=
  LinearOrder.lift' (fun k => toLex (k.slot, k.hash)) (by
    rintro ⟨a, b⟩ ⟨c, d⟩ h
    simpa using h)

instance : Std.LawfulEqOrd SlotHashKey := ⟨fun h => compare_eq_iff_eq.1 h⟩

/-- `SlotHashKey::default()`. -/
def SlotHashKey.default : SlotHashKey := ⟨0, 0⟩

structure ForkInfo where
  stakeVotedAt : Nat
  stakeVotedSubtree : Nat
  height : Nat
  bestSlot : SlotHashKey
  deepestSlot : SlotHashKey
  parent : Option SlotHashKey
  children : List SlotHashKey
  latestInvalidAncestor : Option Slot
  isDuplicateConfirmed : Bool
deriving DecidableEq, Repr

namespace ForkInfo

def isCandidate (i : ForkInfo) : Bool := i.latestInvalidAncestor.isNone

def setDuplicateConfirmed (i : ForkInfo) : ForkInfo :=
  { i with isDuplicateConfirmed := true, latestInvalidAncestor := none }

def updateWithNewlyValidAncestor (i : ForkInfo) (newlyValidAncestor : Slot) : ForkInfo :=
  match i.latestInvalidAncestor with
  | some latestInvalidAncestor =>
    if latestInvalidAncestor ≤ newlyValidAncestor then { i with latestInvalidAncestor := none } else i
  | none => i

def updateWithNewlyInvalidAncestor (i : ForkInfo) (newlyInvalidAncestor : Slot) : Option ForkInfo :=
  -- Should not be marking a duplicate confirmed slot as invalid
  if i.isDuplicateConfirmed then none
  else if i.latestInvalidAncestor.all (fun latest => decide (latest < newlyInvalidAncestor)) then
    some { i with latestInvalidAncestor := some newlyInvalidAncestor }
  else some i

end ForkInfo

/-- The stakes that `add_votes` gets: `epoch_stakes` and `epoch_schedule`. -/
structure VoteStakes where
  epochStakes : Epoch → Option (Pubkey → Nat)
  getEpoch : Slot → Epoch

def VoteStakes.stake (env : VoteStakes) (pubkey : Pubkey) (slot : Slot) : Nat :=
  match env.epochStakes (env.getEpoch slot) with
  | some voteAccountStake => voteAccountStake pubkey
  | none => 0

structure HeaviestSubtreeForkChoice where
  forkInfos : TreeMap SlotHashKey ForkInfo
  latestVotes : TreeMap Pubkey SlotHashKey
  treeRoot : SlotHashKey

/-- The operations of one batch on one key. The fields are the update labels in the order in
which they are processed; a batch marks forks with one slot only. -/
structure KeyOperations where
  subtract : Option Nat
  markInvalid : Option Slot
  markValid : Option Slot
  add : Option Nat
  aggregate : Bool
deriving DecidableEq, Repr

def KeyOperations.none : KeyOperations := ⟨.none, .none, .none, .none, false⟩

abbrev UpdateOperations := TreeMap SlotHashKey KeyOperations

namespace UpdateOperations

def opsAt (ops : UpdateOperations) (key : SlotHashKey) : KeyOperations := ops[key]?.getD .none

def update (ops : UpdateOperations) (key : SlotHashKey) (f : KeyOperations → KeyOperations) :
    UpdateOperations :=
  TreeMap.insert ops key (f (opsAt ops key))

/-- Inserts `Subtract(stake)`, or adds to the one that is there. -/
def subtractStake (ops : UpdateOperations) (key : SlotHashKey) (stake : Nat) : UpdateOperations :=
  update ops key (fun o => { o with subtract := some (o.subtract.getD 0 + stake) })

def addStake (ops : UpdateOperations) (key : SlotHashKey) (stake : Nat) : UpdateOperations :=
  update ops key (fun o => { o with add := some (o.add.getD 0 + stake) })

end UpdateOperations

/-- What a node and everything below it is told. -/
inductive ForkValidity where
  | markValid (slot : Slot)
  | markInvalid (slot : Slot)
deriving DecidableEq, Repr

namespace HeaviestSubtreeForkChoice

def info (fc : HeaviestSubtreeForkChoice) (key : SlotHashKey) : Option ForkInfo := fc.forkInfos[key]?

def setInfo (fc : HeaviestSubtreeForkChoice) (key : SlotHashKey) (i : ForkInfo) :
    HeaviestSubtreeForkChoice :=
  { fc with forkInfos := fc.forkInfos.insert key i }

def containsBlock (fc : HeaviestSubtreeForkChoice) (key : SlotHashKey) : Bool := (fc.info key).isSome

def bestSlot (fc : HeaviestSubtreeForkChoice) (key : SlotHashKey) : Option SlotHashKey :=
  (fc.info key).map ForkInfo.bestSlot

def bestOverallSlot (fc : HeaviestSubtreeForkChoice) : Option SlotHashKey := fc.bestSlot fc.treeRoot

def stakeVotedAt (fc : HeaviestSubtreeForkChoice) (key : SlotHashKey) : Option Nat :=
  (fc.info key).map ForkInfo.stakeVotedAt

def stakeVotedSubtree (fc : HeaviestSubtreeForkChoice) (key : SlotHashKey) : Option Nat :=
  (fc.info key).map ForkInfo.stakeVotedSubtree

def height (fc : HeaviestSubtreeForkChoice) (key : SlotHashKey) : Option Nat :=
  (fc.info key).map ForkInfo.height

def parent (fc : HeaviestSubtreeForkChoice) (key : SlotHashKey) : Option SlotHashKey :=
  (fc.info key).bind ForkInfo.parent

def children (fc : HeaviestSubtreeForkChoice) (key : SlotHashKey) : Option (List SlotHashKey) :=
  (fc.info key).map ForkInfo.children

def latestInvalidAncestor (fc : HeaviestSubtreeForkChoice) (key : SlotHashKey) : Option Slot :=
  (fc.info key).bind ForkInfo.latestInvalidAncestor

def isDuplicateConfirmed (fc : HeaviestSubtreeForkChoice) (key : SlotHashKey) : Option Bool :=
  (fc.info key).map ForkInfo.isDuplicateConfirmed

def isCandidate (fc : HeaviestSubtreeForkChoice) (key : SlotHashKey) : Option Bool :=
  (fc.info key).map ForkInfo.isCandidate

/-- The first `fuel` ancestors of a node, nearest first. -/
def ancestors (fc : HeaviestSubtreeForkChoice) : Nat → SlotHashKey → List SlotHashKey
  | 0, _ => []
  | fuel + 1, key =>
    match fc.parent key with
    | none => []
    | some parent => parent :: ancestors fc fuel parent

/-- Parents have smaller slots, so a node has no more ancestors than its slot number. -/
def ancestorIterator (fc : HeaviestSubtreeForkChoice) (key : SlotHashKey) : List SlotHashKey :=
  fc.ancestors key.slot key

/-- All nodes reachable from a node, excluding the subtree at `root2` if there is one. The
fuel bounds the depth. -/
def reachable (fc : HeaviestSubtreeForkChoice) (root2 : Option SlotHashKey) :
    Nat → SlotHashKey → Option (List SlotHashKey)
  | 0, _ => none
  | fuel + 1, key =>
    if some key = root2 then some []
    else do
      let children ← fc.children key
      let below ← children.mapM (reachable fc root2 fuel)
      some (key :: below.flatten)

def subtreeDiff (fc : HeaviestSubtreeForkChoice) (root1 root2 : SlotHashKey) :
    Option (List SlotHashKey) :=
  if fc.containsBlock root1 then fc.reachable (some root2) (fc.forkInfos.size + 1) root1 else some []

/-- The mutable locals of the loop in `aggregate_slot`. -/
structure Aggregate where
  stakeVotedSubtree : Nat
  deepestChildHeight : Nat
  bestSlotHashKey : SlotHashKey
  deepestSlotHashKey : SlotHashKey
  isDuplicateConfirmed : Bool
  bestChildStakeVotedSubtree : Nat
  bestChildSlotKey : SlotHashKey
  deepestChildStakeVotedSubtree : Nat
  deepestChildSlotKey : SlotHashKey
deriving DecidableEq, Repr

def Aggregate.start (key : SlotHashKey) (i : ForkInfo) : Aggregate where
  stakeVotedSubtree := i.stakeVotedAt
  deepestChildHeight := 0
  bestSlotHashKey := key
  deepestSlotHashKey := key
  isDuplicateConfirmed := false
  bestChildStakeVotedSubtree := 0
  bestChildSlotKey := key
  deepestChildStakeVotedSubtree := 0
  deepestChildSlotKey := key

/-- A candidate child replaces the best child so far if it is the first one, heavier, or as
heavy with a smaller key. -/
def Aggregate.pickBest (key : SlotHashKey) (a : Aggregate) (childKey : SlotHashKey)
    (child : ForkInfo) : Aggregate :=
  if child.isCandidate && (decide (a.bestChildSlotKey = key) ||
      decide (a.bestChildStakeVotedSubtree < child.stakeVotedSubtree) ||
      (decide (child.stakeVotedSubtree = a.bestChildStakeVotedSubtree) &&
        decide (childKey < a.bestChildSlotKey))) then
    { a with
      bestChildStakeVotedSubtree := child.stakeVotedSubtree
      bestChildSlotKey := childKey
      bestSlotHashKey := child.bestSlot }
  else a

/-- Likewise for the deepest child, by height, then stake, then key. -/
def Aggregate.pickDeepest (key : SlotHashKey) (a : Aggregate) (childKey : SlotHashKey)
    (child : ForkInfo) : Aggregate :=
  if decide (a.deepestChildSlotKey = key) || decide (a.deepestChildHeight < child.height) ||
      (decide (child.height = a.deepestChildHeight) &&
        decide (a.deepestChildStakeVotedSubtree < child.stakeVotedSubtree)) ||
      (decide (child.height = a.deepestChildHeight) &&
        decide (child.stakeVotedSubtree = a.deepestChildStakeVotedSubtree) &&
        decide (childKey < a.deepestChildSlotKey)) then
    { a with
      deepestChildHeight := child.height
      deepestChildStakeVotedSubtree := child.stakeVotedSubtree
      deepestChildSlotKey := childKey
      deepestSlotHashKey := child.deepestSlot }
  else a

/-- Children that are not candidates still count towards the weight of the subtree. -/
def Aggregate.addChild (key : SlotHashKey) (a : Aggregate) (child : SlotHashKey × ForkInfo) :
    Aggregate :=
  let counted := { a with
    isDuplicateConfirmed := a.isDuplicateConfirmed || child.2.isDuplicateConfirmed
    stakeVotedSubtree := a.stakeVotedSubtree + child.2.stakeVotedSubtree }
  (counted.pickBest key child.1 child.2).pickDeepest key child.1 child.2

def Aggregate.result (a : Aggregate) (i : ForkInfo) : ForkInfo :=
  { (if a.isDuplicateConfirmed then i.setDuplicateConfirmed else i) with
    stakeVotedSubtree := a.stakeVotedSubtree
    height := a.deepestChildHeight + 1
    bestSlot := a.bestSlotHashKey
    deepestSlot := a.deepestSlotHashKey }

def childInfo (fc : HeaviestSubtreeForkChoice) (key : SlotHashKey) : Option (SlotHashKey × ForkInfo) :=
  (fc.info key).map (fun i => (key, i))

def aggregateSlot (fc : HeaviestSubtreeForkChoice) (key : SlotHashKey) :
    Option HeaviestSubtreeForkChoice :=
  match fc.info key with
  | none => some fc
  | some i => do
    let children ← i.children.mapM fc.childInfo
    some (fc.setInfo key ((children.foldl (Aggregate.addChild key) (.start key i)).result i))

def markForkValid (fc : HeaviestSubtreeForkChoice) (forkToModifyKey : SlotHashKey) (validSlot : Slot) :
    HeaviestSubtreeForkChoice :=
  match fc.info forkToModifyKey with
  | none => fc
  | some i =>
    let updated := i.updateWithNewlyValidAncestor validSlot
    fc.setInfo forkToModifyKey
      (if forkToModifyKey.slot = validSlot then { updated with isDuplicateConfirmed := true } else updated)

def markForkInvalid (fc : HeaviestSubtreeForkChoice) (forkToModifyKey : SlotHashKey)
    (invalidSlot : Slot) : Option HeaviestSubtreeForkChoice :=
  match fc.info forkToModifyKey with
  | none => some fc
  | some i => do
    let updated ← i.updateWithNewlyInvalidAncestor invalidSlot
    some (fc.setInfo forkToModifyKey updated)

def addSlotStake (fc : HeaviestSubtreeForkChoice) (key : SlotHashKey) (stake : Nat) :
    HeaviestSubtreeForkChoice :=
  match fc.info key with
  | none => fc
  | some i => fc.setInfo key { i with
      stakeVotedAt := i.stakeVotedAt + stake
      stakeVotedSubtree := i.stakeVotedSubtree + stake }

def subtractSlotStake (fc : HeaviestSubtreeForkChoice) (key : SlotHashKey) (stake : Nat) :
    Option HeaviestSubtreeForkChoice :=
  match fc.info key with
  | none => some fc
  | some i => do
    let stakeVotedAt ← checkedSub i.stakeVotedAt stake
    let stakeVotedSubtree ← checkedSub i.stakeVotedSubtree stake
    some (fc.setInfo key { i with stakeVotedAt := stakeVotedAt, stakeVotedSubtree := stakeVotedSubtree })

def processKeyOperations (fc : HeaviestSubtreeForkChoice) (key : SlotHashKey) (o : KeyOperations) :
    Option HeaviestSubtreeForkChoice := do
  let fc ← o.subtract.elim (some fc) (fc.subtractSlotStake key)
  let fc ← o.markInvalid.elim (some fc) (fc.markForkInvalid key)
  let fc := o.markValid.elim fc (fc.markForkValid key)
  let fc := o.add.elim fc (fc.addSlotStake key)
  if o.aggregate then fc.aggregateSlot key else some fc

/-- From the greatest to the smallest key. -/
def processUpdateOperations (fc : HeaviestSubtreeForkChoice) (ops : UpdateOperations) :
    Option HeaviestSubtreeForkChoice :=
  ops.toList.reverse.foldlM (fun fc entry => fc.processKeyOperations entry.1 entry.2) fc

def insertMark (validity : Option ForkValidity) (o : KeyOperations) : KeyOperations :=
  match validity with
  | some (.markValid slot) => { o with markValid := some slot }
  | some (.markInvalid slot) => { o with markInvalid := some slot }
  | none => o

/-- Returns `none` if the node was already scheduled for aggregation. -/
def doInsertAggregateOperation (ops : UpdateOperations) (modifyForkValidity : Option ForkValidity)
    (key : SlotHashKey) : Option UpdateOperations :=
  if (UpdateOperations.opsAt ops key).aggregate then none
  else some (UpdateOperations.update ops key
    (fun o => { insertMark modifyForkValidity o with aggregate := true }))

/-- If a node was already inserted, all its ancestors are assumed to be inserted as well. -/
def insertAcrossAncestors (ops : UpdateOperations) : List SlotHashKey → UpdateOperations
  | [] => ops
  | parent :: rest =>
    match doInsertAggregateOperation ops none parent with
    | none => ops
    | some ops' => insertAcrossAncestors ops' rest

def insertAggregateOperations (fc : HeaviestSubtreeForkChoice) (ops : UpdateOperations)
    (key : SlotHashKey) : UpdateOperations :=
  insertAcrossAncestors ops (fc.ancestorIterator key)

/-- A vote that is not newer than the latest one is ignored. Of two versions of one slot the
smaller hash wins. -/
def isOutdatedVote (latestVote : Option SlotHashKey) (newVote : SlotHashKey) : Bool :=
  match latestVote with
  | some old => decide (newVote.slot < old.slot) ||
      (decide (newVote.slot = old.slot) && decide (old.hash ≤ newVote.hash))
  | none => false

/-- The locals of `generate_update_operations`, with the latest votes that it changes. -/
structure VoteBatch where
  latestVotes : TreeMap Pubkey SlotHashKey
  operations : UpdateOperations
  observedPubkeys : List Pubkey

def removeOldVote (fc : HeaviestSubtreeForkChoice) (env : VoteStakes) (ops : UpdateOperations)
    (pubkey : Pubkey) (oldVote : Option SlotHashKey) : UpdateOperations :=
  match oldVote with
  | none => ops
  | some old =>
    let stakeUpdate := env.stake pubkey old.slot
    if 0 < stakeUpdate then
      fc.insertAggregateOperations (UpdateOperations.subtractStake ops old stakeUpdate) old
    else ops

def generateUpdateOperation (fc : HeaviestSubtreeForkChoice) (env : VoteStakes) (b : VoteBatch)
    (pubkeyVote : Pubkey × SlotHashKey) : Option VoteBatch :=
  let (pubkey, newVote) := pubkeyVote
  if newVote.slot < fc.treeRoot.slot then some b
  else if pubkey ∈ b.observedPubkeys then none
  else
    let observed := pubkey :: b.observedPubkeys
    if isOutdatedVote b.latestVotes[pubkey]? newVote then some { b with observedPubkeys := observed }
    else
      let ops := fc.removeOldVote env b.operations pubkey b.latestVotes[pubkey]?
      let ops := UpdateOperations.addStake ops newVote (env.stake pubkey newVote.slot)
      some {
        latestVotes := b.latestVotes.insert pubkey newVote
        operations := fc.insertAggregateOperations ops newVote
        observedPubkeys := observed }

def generateUpdateOperations (fc : HeaviestSubtreeForkChoice) (env : VoteStakes)
    (pubkeyVotes : List (Pubkey × SlotHashKey)) : Option VoteBatch :=
  pubkeyVotes.foldlM (fc.generateUpdateOperation env) ⟨fc.latestVotes, ∅, []⟩

def addVotes (fc : HeaviestSubtreeForkChoice) (env : VoteStakes)
    (pubkeyVotes : List (Pubkey × SlotHashKey)) :
    Option (HeaviestSubtreeForkChoice × SlotHashKey) := do
  let batch ← fc.generateUpdateOperations env pubkeyVotes
  let fc' ← { fc with latestVotes := batch.latestVotes }.processUpdateOperations batch.operations
  let best ← fc'.bestOverallSlot
  some (fc', best)

/-- `BTreeSet::insert`. -/
def insertChild (key : SlotHashKey) (children : List SlotHashKey) : List SlotHashKey :=
  if key ∈ children then children else children.orderedInsert (· ≤ ·) key

/-- No candidate sibling is heavier, or as heavy with a smaller key. -/
def isBestChild (fc : HeaviestSubtreeForkChoice) (maybeBestChild : SlotHashKey) : Option Bool := do
  let weight ← fc.stakeVotedSubtree maybeBestChild
  match fc.parent maybeBestChild with
  | none => some true
  | some parent => do
    let siblings ← fc.children parent
    siblings.allM (fun child => do
      let childWeight ← fc.stakeVotedSubtree child
      let candidate ← fc.isCandidate child
      some (!(candidate && (decide (weight < childWeight) ||
        (decide (weight = childWeight) && decide (child < maybeBestChild))))))

/-- No sibling is higher, as high and heavier, or as high and heavy with a smaller key. -/
def isDeepestChild (fc : HeaviestSubtreeForkChoice) (maybeDeepestChild : SlotHashKey) :
    Option Bool := do
  let weight ← fc.stakeVotedSubtree maybeDeepestChild
  let height ← fc.height maybeDeepestChild
  match fc.parent maybeDeepestChild with
  | none => some true
  | some parent => do
    let siblings ← fc.children parent
    siblings.allM (fun child => do
      let childHeight ← fc.height child
      let childWeight ← fc.stakeVotedSubtree child
      some (!(decide (height < childHeight) ||
        (decide (childHeight = height) && decide (weight < childWeight)) ||
        (decide (childHeight = height) && decide (childWeight = weight) &&
          decide (child < maybeDeepestChild)))))

/-- Sets the new best slot on the ancestors that share the old one. -/
def propagateBest (key oldBest : SlotHashKey) :
    Nat → HeaviestSubtreeForkChoice → Option SlotHashKey → Option HeaviestSubtreeForkChoice
  | _, fc, none => some fc
  | 0, _, some _ => none
  | fuel + 1, fc, some ancestor => do
    let i ← fc.info ancestor
    if i.bestSlot = oldBest then
      propagateBest key oldBest fuel (fc.setInfo ancestor { i with bestSlot := key }) i.parent
    else some fc

/-- Sets height and deepest slot upwards while the changed child is the deepest one. -/
def propagateDeepest (key : SlotHashKey) :
    Nat → HeaviestSubtreeForkChoice → Option SlotHashKey → SlotHashKey → Nat →
      Option HeaviestSubtreeForkChoice
  | _, fc, none, _, _ => some fc
  | 0, _, some _, _, _ => none
  | fuel + 1, fc, some ancestor, currentChild, currentHeight => do
    let deepest ← fc.isDeepestChild currentChild
    if deepest then do
      let i ← fc.info ancestor
      propagateDeepest key fuel
        (fc.setInfo ancestor { i with deepestSlot := key, height := currentHeight + 1 })
        i.parent ancestor (currentHeight + 1)
    else some fc

def propagateNewLeaf (fc : HeaviestSubtreeForkChoice) (key parentKey : SlotHashKey) :
    Option HeaviestSubtreeForkChoice := do
  let parentBest ← fc.bestSlot parentKey
  let best ← fc.isBestChild key
  let fc ← if best then propagateBest key parentBest key.slot fc (some parentKey) else some fc
  propagateDeepest key key.slot fc (some parentKey) key 1

def addNewLeafSlot (fc : HeaviestSubtreeForkChoice) (key : SlotHashKey)
    (parent : Option SlotHashKey) : Option HeaviestSubtreeForkChoice :=
  if fc.containsBlock key then some fc
  else
    let leaf : ForkInfo := {
      stakeVotedAt := 0
      stakeVotedSubtree := 0
      height := 1
      bestSlot := key
      deepestSlot := key
      parent := parent
      children := []
      latestInvalidAncestor := parent.bind fc.latestInvalidAncestor
      -- without a parent this is the root, which must have been duplicate confirmed
      isDuplicateConfirmed := parent.isNone }
    let fc := fc.setInfo key leaf
    match parent with
    | none => some fc
    | some parent => do
      let i ← fc.info parent
      (fc.setInfo parent { i with children := insertChild key i.children }).propagateNewLeaf key parent

def new (treeRoot : SlotHashKey) : Option HeaviestSubtreeForkChoice :=
  addNewLeafSlot ⟨∅, ∅, treeRoot⟩ treeRoot none

/-- `remove(key).expect(..)` for each key. -/
def removeAll (forkInfos : TreeMap SlotHashKey ForkInfo) :
    List SlotHashKey → Option (TreeMap SlotHashKey ForkInfo)
  | [] => some forkInfos
  | key :: rest => if key ∈ forkInfos then removeAll (forkInfos.erase key) rest else none

/-- The latest votes keep entries for the nodes that are dropped. -/
def setTreeRoot (fc : HeaviestSubtreeForkChoice) (newRoot : SlotHashKey) :
    Option HeaviestSubtreeForkChoice := do
  let removeSet ← fc.subtreeDiff fc.treeRoot newRoot
  let forkInfos ← removeAll fc.forkInfos removeSet
  let i ← forkInfos[newRoot]?
  some { fc with forkInfos := forkInfos.insert newRoot { i with parent := none }, treeRoot := newRoot }

/-- Splits off the subtree at a node: the tree without it, and the subtree as its own tree. -/
def splitOff (fc : HeaviestSubtreeForkChoice) (key : SlotHashKey) :
    Option (HeaviestSubtreeForkChoice × HeaviestSubtreeForkChoice) :=
  if fc.treeRoot = key then none
  else do
    let splitTreeRoot ← fc.info key
    let parent ← splitTreeRoot.parent
    let ops := fc.insertAggregateOperations ∅ key
    let parentInfo ← fc.info parent
    -- Remove child link so that this slot cannot be chosen as best or deepest
    if key ∉ parentInfo.children then none
    else do
      let unlinked := fc.setInfo parent { parentInfo with children := parentInfo.children.erase key }
      let fc ← unlinked.processUpdateOperations ops
      -- Remove node + all children and add to new tree
      let nodes ← fc.reachable none (fc.forkInfos.size + 1) key
      let splitNodes ← nodes.mapM fc.childInfo
      let forkInfos ← removeAll fc.forkInfos nodes
      let splitForkInfos := (TreeMap.ofList splitNodes).insert key { splitTreeRoot with parent := none }
      some (
        { fc with
          forkInfos := forkInfos
          latestVotes := fc.latestVotes.filter (fun _ node => forkInfos.contains node) },
        { forkInfos := splitForkInfos
          latestVotes := fc.latestVotes.filter (fun _ node => splitForkInfos.contains node)
          treeRoot := key })

/-- `otherVotes` lists the latest votes of `other` in the order of the hash map. -/
def merge (fc other : HeaviestSubtreeForkChoice) (mergeLeaf : SlotHashKey) (env : VoteStakes)
    (otherVotes : List (Pubkey × SlotHashKey)) : Option HeaviestSubtreeForkChoice :=
  if fc.containsBlock mergeLeaf then do
    let merged ← other.forkInfos.toList.foldlM
      (fun fc entry => fc.addNewLeafSlot entry.1 (some (entry.2.parent.getD mergeLeaf))) fc
    let (voted, _) ← merged.addVotes env otherVotes
    some voted
  else none

def insertForkMarks (validity : ForkValidity) (ops : UpdateOperations) (nodes : List SlotHashKey) :
    UpdateOperations :=
  nodes.foldl (fun ops node => (doInsertAggregateOperation ops (some validity) node).getD ops) ops

def markForkInvalidCandidate (fc : HeaviestSubtreeForkChoice) (invalidKey : SlotHashKey) :
    Option HeaviestSubtreeForkChoice :=
  match fc.info invalidKey with
  | none => some fc
  | some i =>
    -- Should not be marking duplicate confirmed blocks as invalid candidates
    if i.isDuplicateConfirmed then none
    else do
      let fork ← fc.subtreeDiff invalidKey SlotHashKey.default
      let ops := insertForkMarks (.markInvalid invalidKey.slot) ∅ fork
      fc.processUpdateOperations (fc.insertAggregateOperations ops invalidKey)

def markForkValidCandidate (fc : HeaviestSubtreeForkChoice) (validKey : SlotHashKey) :
    Option (HeaviestSubtreeForkChoice × List SlotHashKey) := do
  let newlyConfirmed ← (validKey :: fc.ancestorIterator validKey).filterM
    (fun key => (fc.isDuplicateConfirmed key).map (fun confirmed => !confirmed))
  let fork ← fc.subtreeDiff validKey SlotHashKey.default
  let ops := insertForkMarks (.markValid validKey.slot) ∅ fork
  let fc' ← fc.processUpdateOperations (fc.insertAggregateOperations ops validKey)
  some (fc', newlyConfirmed)

end HeaviestSubtreeForkChoice

end Nuah
