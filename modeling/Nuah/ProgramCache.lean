import Nuah.Primitives
import Nuah.Lib.OrderedMaps

/-!
# The program cache

The cache of loaded programs (`program-runtime/src/loaded_programs.rs`), and how
`load_program_with_pubkey` in `svm/src/transaction_processor.rs` makes its entries. A vector
searched by bisection is a sorted list searched from its start.
-/

namespace Nuah

open Std (TreeMap)

/-! ## Forks -/

inductive BlockRelation where
  | ancestor
  | equal
  | descendant
  | unrelated
  | unknown
deriving Repr, DecidableEq

/-- A fork graph that is a tree: an ancestor has a smaller slot, the ancestors of a block are
a chain, and descendants are told as such. -/
structure ForkGraph where
  relationship : Slot → Slot → BlockRelation
  equal_iff : ∀ a b, relationship a b = .equal ↔ a = b
  lt_of_ancestor : ∀ {a b}, relationship a b = .ancestor → a < b
  descendant_iff : ∀ a b, relationship a b = .descendant ↔ relationship b a = .ancestor
  ancestor_trans : ∀ {a b c}, relationship a b = .ancestor → relationship b c = .ancestor →
    relationship a c = .ancestor
  ancestor_chain : ∀ {a b c}, relationship a c = .ancestor → relationship b c = .ancestor → a < b →
    relationship a b = .ancestor

/-- The slot is on the fork of the other one, not after it. -/
def ForkGraph.IsOnFork (g : ForkGraph) (a b : Slot) : Prop :=
  g.relationship a b = .equal ∨ g.relationship a b = .ancestor

instance (g : ForkGraph) (a b : Slot) : Decidable (g.IsOnFork a b) := by
  unfold ForkGraph.IsOnFork
  infer_instance

/-! ## Entries -/

/-- The identity of a `ProgramRuntimeEnvironment`. -/
abbrev Environment := Nat

structure ProgramRuntimeEnvironments where
  programRuntimeV1 : Environment
  programRuntimeV2 : Environment
deriving Repr, DecidableEq

/-- A program by how it was loaded; `χ` is its executable. -/
inductive LoadedProgramType (χ : Type) where
  | failedVerification (environment : Environment)
  | closed
  | delayVisibility
  | unloaded (environment : Environment)
  | legacyV0 (environment : Environment) (executable : χ)
  | legacyV1 (environment : Environment) (executable : χ)
  | typed (environment : Environment) (executable : χ)
  | builtin
deriving Repr, DecidableEq

variable {χ : Type}

namespace LoadedProgramType

def getEnvironment : LoadedProgramType χ → Option Environment
  | .failedVerification environment => some environment
  | .unloaded environment => some environment
  | .legacyV0 environment _ => some environment
  | .legacyV1 environment _ => some environment
  | .typed environment _ => some environment
  | .closed => none
  | .delayVisibility => none
  | .builtin => none

def isUnloaded : LoadedProgramType χ → Bool
  | .unloaded _ => true
  | _ => false

def isBuiltin : LoadedProgramType χ → Bool
  | .builtin => true
  | _ => false

/-- Whether an entry may take the place of one for the same slots. -/
def mayReplace : LoadedProgramType χ → LoadedProgramType χ → Bool
  | .builtin, .builtin => true
  | .unloaded _, .legacyV0 _ _ => true
  | .unloaded _, .legacyV1 _ _ => true
  | .unloaded _, .typed _ _ => true
  | _, _ => false

end LoadedProgramType

structure LoadedProgram (χ : Type) where
  program : LoadedProgramType χ
  accountSize : Nat
  deploymentSlot : Slot
  effectiveSlot : Slot
deriving Repr, DecidableEq

/-- `DELAY_VISIBILITY_SLOT_OFFSET`. -/
def delayVisibilitySlotOffset : Nat := 1

namespace LoadedProgram

def newTombstone (slot : Slot) (reason : LoadedProgramType χ) : LoadedProgram χ :=
  ⟨reason, 0, slot, slot⟩

def isTombstone (e : LoadedProgram χ) : Bool :=
  match e.program with
  | .failedVerification _ => true
  | .closed => true
  | .delayVisibility => true
  | _ => false

def isImplicitDelayVisibilityTombstone (e : LoadedProgram χ) (slot : Slot) : Bool :=
  !e.program.isBuiltin && decide (e.effectiveSlot - e.deploymentSlot = delayVisibilitySlotOffset) &&
    decide (e.deploymentSlot ≤ slot) && decide (slot < e.effectiveSlot)

def matchesEnvironment (e : LoadedProgram χ) (environments : ProgramRuntimeEnvironments) : Bool :=
  match e.program.getEnvironment with
  | none => true
  | some environment => environment == environments.programRuntimeV1 ||
      environment == environments.programRuntimeV2

def Before (a b : LoadedProgram χ) : Prop :=
  a.effectiveSlot < b.effectiveSlot ∨
    a.effectiveSlot = b.effectiveSlot ∧ a.deploymentSlot < b.deploymentSlot

instance (a b : LoadedProgram χ) : Decidable (a.Before b) := by
  unfold Before
  infer_instance

lemma Before.trans {a b c : LoadedProgram χ} (hab : a.Before b) (hbc : b.Before c) : a.Before c := by
  simp only [Before, Slot] at hab hbc ⊢
  omega

def SameSlots (a b : LoadedProgram χ) : Prop :=
  a.effectiveSlot = b.effectiveSlot ∧ a.deploymentSlot = b.deploymentSlot

instance (a b : LoadedProgram χ) : Decidable (a.SameSlots b) := by
  unfold SameSlots
  infer_instance

lemma before_of_not_before {a b : LoadedProgram χ} (h : ¬ a.Before b) (hne : ¬ a.SameSlots b) :
    b.Before a := by
  simp only [Before, SameSlots, Slot] at h hne ⊢
  omega

end LoadedProgram

/-! ## The versions of a program -/

structure SlotVersions (χ : Type) where
  toList : List (LoadedProgram χ)
  sorted : toList.Pairwise LoadedProgram.Before

/-- The versions with the entry among them, and whether its place was taken. -/
def assignVersion (entry : LoadedProgram χ) :
    List (LoadedProgram χ) → List (LoadedProgram χ) × Bool
  | [] => ([entry], false)
  | existing :: rest =>
    if existing.Before entry then
      let (assigned, wasOccupied) := assignVersion entry rest
      (existing :: assigned, wasOccupied)
    else if existing.SameSlots entry then
      if existing.program.mayReplace entry.program then (entry :: rest, false)
      else (existing :: rest, true)
    else (entry :: existing :: rest, false)

lemma mem_assignVersion {entry e : LoadedProgram χ} {versions : List (LoadedProgram χ)}
    (h : e ∈ (assignVersion entry versions).1) : e = entry ∨ e ∈ versions := by
  induction versions with
  | nil => exact .inl (List.mem_singleton.1 h)
  | cons existing rest ih =>
    rw [assignVersion] at h
    split_ifs at h
    · rcases List.mem_cons.1 h with rfl | h
      · exact .inr List.mem_cons_self
      · exact (ih h).imp_right (List.mem_cons_of_mem _)
    · rcases List.mem_cons.1 h with rfl | h
      · exact .inl rfl
      · exact .inr (List.mem_cons_of_mem _ h)
    · exact .inr h
    · exact List.mem_cons.1 h

lemma assignVersion_sorted {entry : LoadedProgram χ} {versions : List (LoadedProgram χ)}
    (h : versions.Pairwise LoadedProgram.Before) :
    (assignVersion entry versions).1.Pairwise LoadedProgram.Before := by
  induction versions with
  | nil => exact List.pairwise_singleton _ _
  | cons existing rest ih =>
    obtain ⟨hfirst, hrest⟩ := List.pairwise_cons.1 h
    rw [assignVersion]
    split_ifs with hbefore hsame hreplace
    · refine List.pairwise_cons.2 ⟨fun e he => ?_, ih hrest⟩
      rcases mem_assignVersion he with rfl | he
      · exact hbefore
      · exact hfirst e he
    · refine List.pairwise_cons.2 ⟨fun e he => ?_, hrest⟩
      have := hfirst e he
      unfold LoadedProgram.Before at this ⊢
      rw [← hsame.1, ← hsame.2]
      exact this
    · exact h
    · have hafter := LoadedProgram.before_of_not_before hbefore hsame
      refine List.pairwise_cons.2 ⟨fun e he => ?_, h⟩
      rcases List.mem_cons.1 he with rfl | he
      · exact hafter
      · exact hafter.trans (hfirst e he)

def SlotVersions.empty : SlotVersions χ := ⟨[], List.Pairwise.nil⟩

def SlotVersions.assign (v : SlotVersions χ) (entry : LoadedProgram χ) : SlotVersions χ :=
  ⟨(assignVersion entry v.toList).1, assignVersion_sorted v.sorted⟩

/-! ## Pruning -/

/-- The entries, the latest first, that are not on orphan forks: of those before the new root
the first one, and those for another environment than it. -/
def keepReachable (g : ForkGraph) (latestRootSlot newRootSlot : Slot) :
    Option (Option Environment) → List (LoadedProgram χ) → List (LoadedProgram χ)
  | _, [] => []
  | firstAncestorEnv, e :: rest =>
    let relation := g.relationship e.deploymentSlot newRootSlot
    if newRootSlot ≤ e.deploymentSlot then
      if relation = .equal ∨ relation = .descendant then
        e :: keepReachable g latestRootSlot newRootSlot firstAncestorEnv rest
      else keepReachable g latestRootSlot newRootSlot firstAncestorEnv rest
    else if relation = .ancestor ∨ e.deploymentSlot ≤ latestRootSlot then
      match firstAncestorEnv with
      | none => e :: keepReachable g latestRootSlot newRootSlot (some e.program.getEnvironment) rest
      | some env =>
        match e.program.getEnvironment, env with
        | some entryEnv, some env' =>
          if entryEnv ≠ env' then e :: keepReachable g latestRootSlot newRootSlot (some env) rest
          else keepReachable g latestRootSlot newRootSlot (some env) rest
        | _, _ => keepReachable g latestRootSlot newRootSlot (some env) rest
    else keepReachable g latestRootSlot newRootSlot firstAncestorEnv rest

lemma keepReachable_sublist (g : ForkGraph) (latestRootSlot newRootSlot : Slot)
    (first : Option (Option Environment)) (versions : List (LoadedProgram χ)) :
    (keepReachable g latestRootSlot newRootSlot first versions).Sublist versions := by
  induction versions generalizing first with
  | nil => exact List.Sublist.refl _
  | cons e rest ih =>
    rw [keepReachable.eq_def]
    dsimp only
    split_ifs
    · exact (ih _).cons_cons e
    · exact (ih _).cons e
    · split
      · exact (ih _).cons_cons e
      · split
        · split_ifs
          · exact (ih _).cons_cons e
          · exact (ih _).cons e
        · exact (ih _).cons e
    · exact (ih _).cons e

/-- The entries of a program that `prune` keeps, the latest first. -/
def keptVersions (g : ForkGraph) (latestRootSlot newRootSlot : Slot)
    (outdated : Option ProgramRuntimeEnvironments) (versions : List (LoadedProgram χ)) :
    List (LoadedProgram χ) :=
  (keepReachable g latestRootSlot newRootSlot none versions.reverse).filter fun e =>
    match outdated with
    | none => true
    | some environments => e.matchesEnvironment environments

lemma keptVersions_sublist (g : ForkGraph) (latestRootSlot newRootSlot : Slot)
    (outdated : Option ProgramRuntimeEnvironments) (versions : List (LoadedProgram χ)) :
    (keptVersions g latestRootSlot newRootSlot outdated versions).Sublist versions.reverse :=
  List.filter_sublist.trans (keepReachable_sublist _ _ _ _ _)

def SlotVersions.prune (g : ForkGraph) (latestRootSlot newRootSlot : Slot)
    (outdated : Option ProgramRuntimeEnvironments) (v : SlotVersions χ) : SlotVersions χ where
  toList := (keptVersions g latestRootSlot newRootSlot outdated v.toList).reverse
  sorted := by
    have hsublist := (keptVersions_sublist g latestRootSlot newRootSlot outdated v.toList).reverse
    rw [List.reverse_reverse] at hsublist
    exact v.sorted.sublist hsublist

/-! ## The cache -/

structure SecondLevel (χ : Type) where
  slotVersions : SlotVersions χ
  /-- The slot of the batch that loads the program at the moment. -/
  cooperativeLoadingLock : Option Slot

def SecondLevel.default : SecondLevel χ := ⟨.empty, none⟩

structure ProgramCache (χ : Type) where
  entries : TreeMap Pubkey (SecondLevel χ)
  latestRootSlot : Slot
  latestRootEpoch : Epoch
  environments : ProgramRuntimeEnvironments
  upcomingEnvironments : Option ProgramRuntimeEnvironments

inductive LoadedProgramMatchCriteria where
  | deployedOnOrAfterSlot (slot : Slot)
  | tombstone
  | noCriteria
deriving Repr, DecidableEq

/-- `LoadedProgramsForTxBatch`. -/
structure TxBatch (χ : Type) where
  entries : TreeMap Pubkey (LoadedProgram χ)
  slot : Slot
  environments : ProgramRuntimeEnvironments

/-- What `extract` is asked for. -/
structure SearchItem where
  key : Pubkey
  criteria : LoadedProgramMatchCriteria
  usageCount : Nat
deriving Repr, DecidableEq

structure Extraction (χ : Type) where
  cache : ProgramCache χ
  missing : List SearchItem
  batch : TxBatch χ
  cooperativeLoadingTask : Option (Pubkey × Nat)

namespace ProgramCache

def new (rootSlot : Slot) (rootEpoch : Epoch) (environments : ProgramRuntimeEnvironments) :
    ProgramCache χ :=
  ⟨∅, rootSlot, rootEpoch, environments, none⟩

def secondLevel (cache : ProgramCache χ) (key : Pubkey) : SecondLevel χ :=
  cache.entries[key]?.getD .default

def setLevel (cache : ProgramCache χ) (key : Pubkey) (level : SecondLevel χ) : ProgramCache χ :=
  { cache with entries := cache.entries.insert key level }

def getEnvironmentsForEpoch (cache : ProgramCache χ) (epoch : Epoch) : ProgramRuntimeEnvironments :=
  if epoch ≠ cache.latestRootEpoch then cache.upcomingEnvironments.getD cache.environments
  else cache.environments

/-- Returns also whether the entry was not put in because its place was taken. -/
def assignProgram (cache : ProgramCache χ) (key : Pubkey) (entry : LoadedProgram χ) :
    ProgramCache χ × Bool :=
  let level := cache.secondLevel key
  (cache.setLevel key { level with slotVersions := level.slotVersions.assign entry },
    (assignVersion entry level.slotVersions.toList).2)

/-- The environments that come into force with the new root, if any. -/
def environmentsAtRoot (cache : ProgramCache χ) (newRootEpoch : Epoch) :
    Option ProgramRuntimeEnvironments :=
  if cache.latestRootEpoch ≠ newRootEpoch then cache.upcomingEnvironments else none

def prune (cache : ProgramCache χ) (g : ForkGraph) (newRootSlot : Slot) (newRootEpoch : Epoch) :
    ProgramCache χ :=
  let upcoming := cache.environmentsAtRoot newRootEpoch
  let pruned := cache.entries.map fun _ level =>
    { level with slotVersions :=
        level.slotVersions.prune g cache.latestRootSlot newRootSlot upcoming }
  { entries := pruned.filter fun _ level =>
      !level.slotVersions.toList.isEmpty || level.cooperativeLoadingLock.isSome
    latestRootSlot := newRootSlot
    latestRootEpoch := newRootEpoch
    environments := upcoming.getD cache.environments
    upcomingEnvironments := if cache.latestRootEpoch ≠ newRootEpoch then none
      else cache.upcomingEnvironments }

/-! ## Extraction -/

def matchesCriteria (e : LoadedProgram χ) : LoadedProgramMatchCriteria → Bool
  | .deployedOnOrAfterSlot slot => decide (slot ≤ e.deploymentSlot)
  | .tombstone => e.isTombstone
  | .noCriteria => true

/-- The entry can be seen by the batch: it is on its fork, or counts as rooted. -/
def Visible (g : ForkGraph) (latestRootSlot slot : Slot) (e : LoadedProgram χ) : Prop :=
  e.deploymentSlot ≤ latestRootSlot ∨ g.IsOnFork e.deploymentSlot slot

instance (g : ForkGraph) (latestRootSlot slot : Slot) (e : LoadedProgram χ) :
    Decidable (Visible g latestRootSlot slot e) := by
  unfold Visible
  infer_instance

def searchVersions (g : ForkGraph) (latestRootSlot slot : Slot)
    (environments : ProgramRuntimeEnvironments) (criteria : LoadedProgramMatchCriteria) :
    List (LoadedProgram χ) → Option (LoadedProgram χ)
  | [] => none
  | e :: rest =>
    if Visible g latestRootSlot slot e then
      if e.effectiveSlot ≤ slot ∧ e.matchesEnvironment environments then
        if matchesCriteria e criteria ∧ !e.program.isUnloaded then some e else none
      else if e.isImplicitDelayVisibilityTombstone slot then
        some (.newTombstone e.deploymentSlot .delayVisibility)
      else searchVersions g latestRootSlot slot environments criteria rest
    else searchVersions g latestRootSlot slot environments criteria rest

def find (g : ForkGraph) (cache : ProgramCache χ) (key : Pubkey) (slot : Slot)
    (environments : ProgramRuntimeEnvironments) (criteria : LoadedProgramMatchCriteria) :
    Option (LoadedProgram χ) :=
  searchVersions g cache.latestRootSlot slot environments criteria
    (cache.secondLevel key).slotVersions.toList.reverse

/-- A missing program becomes the task of the batch, if it has none yet and no other batch
loads the program. -/
def selectTask (cache : ProgramCache χ) (item : SearchItem) (slot : Slot)
    (task : Option (Pubkey × Nat)) : ProgramCache χ × Option (Pubkey × Nat) :=
  let level := cache.secondLevel item.key
  if task.isNone then
    if level.cooperativeLoadingLock.isNone then
      (cache.setLevel item.key { level with cooperativeLoadingLock := some slot },
        some (item.key, item.usageCount))
    else (cache.setLevel item.key level, task)
  else (cache, task)

/-- Puts what is found into the batch; keeps the keys that are missing, and the one of them
that the batch has to load. -/
def extract (g : ForkGraph) :
    List SearchItem → ProgramCache χ → TxBatch χ → Option (Pubkey × Nat) → Extraction χ
  | [], cache, batch, task => ⟨cache, [], batch, task⟩
  | item :: searchFor, cache, batch, task =>
    match find g cache item.key batch.slot batch.environments item.criteria with
    | some e =>
      extract g searchFor cache { batch with entries := batch.entries.insert item.key e } task
    | none =>
      let (cache, task) := cache.selectTask item batch.slot task
      let rest := extract g searchFor cache batch task
      { rest with missing := item :: rest.missing }

end ProgramCache

/-! ## Runs -/

/-- What happens to the cache. An entry with delayed visibility is never assigned: that is
asserted. The recompilation phase starts when the environments of the next epoch are known. -/
inductive CacheOp (χ : Type) where
  | assign (key : Pubkey) (entry : LoadedProgram χ) (h : entry.program ≠ .delayVisibility)
  | prune (newRootSlot : Slot) (newRootEpoch : Epoch)
  | extract (searchFor : List SearchItem) (batch : TxBatch χ)
  | anticipate (environments : ProgramRuntimeEnvironments)

def CacheOp.apply (g : ForkGraph) (cache : ProgramCache χ) : CacheOp χ → ProgramCache χ
  | .assign key entry _ => (cache.assignProgram key entry).1
  | .prune newRootSlot newRootEpoch => cache.prune g newRootSlot newRootEpoch
  | .extract searchFor batch => (ProgramCache.extract g searchFor cache batch none).cache
  | .anticipate environments => { cache with upcomingEnvironments := some environments }

def ProgramCache.run (g : ForkGraph) (cache : ProgramCache χ) (ops : List (CacheOp χ)) :
    ProgramCache χ :=
  ops.foldl (CacheOp.apply g) cache

/-! ## Loading a program -/

/-- What the accounts of a program come to; the executables are what loading and verifying
their bytes gives, if it succeeds. -/
inductive ProgramAccountLoadResult (χ : Type) where
  | accountNotFound
  | invalidAccountData (environment : Environment)
  | programOfLoaderV1 (executable : Option χ) (size : Nat)
  | programOfLoaderV2 (executable : Option χ) (size : Nat)
  | programOfLoaderV3 (executable : Option χ) (size : Nat) (slot : Slot)
  | programOfLoaderV4 (executable : Option χ) (size : Nat) (slot : Slot)

/-- The entry of a program that was deployed at the slot. -/
def deployedEntry (kind : χ → LoadedProgramType χ) (environment : Environment)
    (executable : Option χ) (size : Nat) (slot : Slot) : LoadedProgram χ :=
  match executable with
  | some x => ⟨kind x, size, slot, slot + delayVisibilitySlotOffset⟩
  | none => .newTombstone slot (.failedVerification environment)

/-- `load_program_with_pubkey` at a slot, for an epoch that starts at `firstSlotInEpoch`. -/
def loadProgramWithPubkey (cache : ProgramCache χ) (slot : Slot)
    (loaded : ProgramAccountLoadResult χ) (effectiveEpoch : Epoch) (firstSlotInEpoch : Slot) :
    LoadedProgram χ :=
  let environments := cache.getEnvironmentsForEpoch effectiveEpoch
  let v1 := environments.programRuntimeV1
  let v2 := environments.programRuntimeV2
  let entry := match loaded with
    | .accountNotFound => .newTombstone slot .closed
    | .invalidAccountData environment => .newTombstone slot (.failedVerification environment)
    | .programOfLoaderV1 executable size => deployedEntry (.legacyV0 v1) v1 executable size 0
    | .programOfLoaderV2 executable size => deployedEntry (.legacyV1 v1) v1 executable size 0
    | .programOfLoaderV3 executable size slot => deployedEntry (.legacyV1 v1) v1 executable size slot
    | .programOfLoaderV4 executable size slot => deployedEntry (.typed v2) v2 executable size slot
  if environments ≠ cache.environments then
    { entry with effectiveSlot := max entry.effectiveSlot firstSlotInEpoch }
  else entry

end Nuah
