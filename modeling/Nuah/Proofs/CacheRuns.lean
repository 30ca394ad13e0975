import Nuah.Proofs.CachePruning

/-!
# Runs of the program cache

While later deployments are not effective earlier, the latest deployment on a fork keeps an
entry in the cache for each environment that it has an entry for.
-/

namespace Nuah

variable {χ : Type}

/-! ## Entries for the same purpose -/

namespace LoadedProgram

def OtherEnvironment (a b : LoadedProgram χ) : Prop :=
  a.program.getEnvironment ≠ none ∧ b.program.getEnvironment ≠ none ∧
    a.program.getEnvironment ≠ b.program.getEnvironment

instance (a b : LoadedProgram χ) : Decidable (a.OtherEnvironment b) := by
  unfold OtherEnvironment
  infer_instance

/-- The entry can be used wherever the environment of the other one is accepted. -/
def FitsFor (a b : LoadedProgram χ) : Prop :=
  a.program.getEnvironment = none ∨ a.program.getEnvironment = b.program.getEnvironment

instance (a b : LoadedProgram χ) : Decidable (a.FitsFor b) := by
  unfold FitsFor
  infer_instance

/-- The entries are for the same environment, and both or none of them is a builtin. -/
def SameKind (a b : LoadedProgram χ) : Prop :=
  a.program.getEnvironment = b.program.getEnvironment ∧ a.program.isBuiltin = b.program.isBuiltin

instance (a b : LoadedProgram χ) : Decidable (a.SameKind b) := by
  unfold SameKind
  infer_instance

/-- The entry does for the other one at every slot after the root. -/
def Covers (root : Slot) (a b : LoadedProgram χ) : Prop :=
  a.deploymentSlot = b.deploymentSlot ∧
    (a.effectiveSlot = b.effectiveSlot ∧ a.SameKind b ∨
      b.effectiveSlot < a.effectiveSlot ∧ a.effectiveSlot ≤ root ∧ a.FitsFor b)

variable {a b c : LoadedProgram χ} {root : Slot}

lemma FitsFor.trans (hab : a.FitsFor b) (hbc : b.FitsFor c) : a.FitsFor c := by
  rcases hab with hab | hab
  · exact .inl hab
  · rcases hbc with hbc | hbc
    · exact .inl (hab.trans hbc)
    · exact .inr (hab.trans hbc)

lemma FitsFor.matchesEnvironment (h : a.FitsFor b) {environments : ProgramRuntimeEnvironments}
    (hb : b.matchesEnvironment environments) : a.matchesEnvironment environments := by
  unfold LoadedProgram.matchesEnvironment at hb ⊢
  rcases h with h | h
  · rw [h]
  · rw [h]
    exact hb

lemma Covers.fitsFor (h : Covers root a b) : a.FitsFor b := by
  rcases h.2 with ⟨-, hkind⟩ | ⟨-, -, hfits⟩
  · exact .inr hkind.1
  · exact hfits

lemma Covers.effectiveSlot_le (h : Covers root a b) : b.effectiveSlot ≤ a.effectiveSlot := by
  rcases h.2 with ⟨heq, -⟩ | ⟨hlt, -, -⟩
  · exact heq.ge
  · exact hlt.le

lemma Covers.mono (h : Covers root a b) {newRoot : Slot} (hle : root ≤ newRoot) :
    Covers newRoot a b :=
  ⟨h.1, h.2.imp_right fun ⟨hlt, hroot, hfits⟩ => ⟨hlt, hroot.trans hle, hfits⟩⟩

lemma covers_of_sameSlots (hslots : a.SameSlots b) (hkind : a.SameKind b) : Covers root a b :=
  ⟨hslots.2, .inl ⟨hslots.1, hkind⟩⟩

lemma Covers.of_sameSlots (h : Covers root b c) (hslots : a.SameSlots b) (hkind : a.SameKind b) :
    Covers root a c := by
  refine ⟨hslots.2.trans h.1, ?_⟩
  rcases h.2 with ⟨heffective, hsame⟩ | ⟨hlt, hroot, hfits⟩
  · exact .inl ⟨hslots.1.trans heffective, hkind.1.trans hsame.1, hkind.2.trans hsame.2⟩
  · refine .inr ⟨hslots.1 ▸ hlt, hslots.1 ▸ hroot, ?_⟩
    exact FitsFor.trans (.inr hkind.1) hfits

lemma Covers.of_after (h : Covers root b c) {newRoot : Slot}
    (hdeployment : a.deploymentSlot = b.deploymentSlot) (hlt : b.effectiveSlot < a.effectiveSlot)
    (hroot : a.effectiveSlot ≤ newRoot) (hfits : a.FitsFor b) : Covers newRoot a c :=
  ⟨hdeployment.trans h.1, .inr ⟨h.effectiveSlot_le.trans_lt hlt, hroot, hfits.trans h.fitsFor⟩⟩

lemma Covers.serves (h : Covers root a b) {slot : Slot} (hslot : root ≤ slot)
    {environments : ProgramRuntimeEnvironments} (hserves : b.Serves slot environments) :
    a.Serves slot environments := by
  rcases h.2 with ⟨heffective, hkind⟩ | ⟨hlt, hroot, hfits⟩
  · have hmatches : a.matchesEnvironment environments = b.matchesEnvironment environments := by
      unfold LoadedProgram.matchesEnvironment
      rw [hkind.1]
    have hdelay : a.isImplicitDelayVisibilityTombstone slot =
        b.isImplicitDelayVisibilityTombstone slot := by
      unfold isImplicitDelayVisibilityTombstone
      rw [hkind.2, heffective, h.1]
    rw [Serves, heffective, hmatches, hdelay]
    exact hserves
  · have heffective : b.effectiveSlot ≤ slot := hlt.le.trans (hroot.trans hslot)
    rcases hserves with ⟨-, hmatches⟩ | hdelay
    · exact .inl ⟨hroot.trans hslot, hfits.matchesEnvironment hmatches⟩
    · rw [isImplicitDelayVisibilityTombstone, Bool.and_eq_true, decide_eq_true_eq] at hdelay
      exact absurd heffective (not_le.2 hdelay.2)

end LoadedProgram

/-! ## Assigning and pruning one program's versions -/

lemma exists_assignVersion_of_entry (entry : LoadedProgram χ) (versions : List (LoadedProgram χ)) :
    ∃ e ∈ (assignVersion entry versions).1, e = entry ∨ e.SameSlots entry ∧ e ∈ versions := by
  induction versions with
  | nil => exact ⟨entry, List.mem_singleton_self _, .inl rfl⟩
  | cons existing rest ih =>
    rw [assignVersion]
    split_ifs with hbefore hsame hreplace
    · obtain ⟨e, he, hcase⟩ := ih
      refine ⟨e, List.mem_cons_of_mem _ he, hcase.imp_right fun h => ?_⟩
      exact ⟨h.1, List.mem_cons_of_mem _ h.2⟩
    · exact ⟨entry, List.mem_cons_self, .inl rfl⟩
    · exact ⟨existing, List.mem_cons_self, .inr ⟨hsame, List.mem_cons_self⟩⟩
    · exact ⟨entry, List.mem_cons_self, .inl rfl⟩

variable {versions : List (LoadedProgram χ)}

lemma mem_or_replaced_assignVersion {entry e : LoadedProgram χ} (he : e ∈ versions) :
    e ∈ (assignVersion entry versions).1 ∨
      entry ∈ (assignVersion entry versions).1 ∧ entry.SameSlots e := by
  induction versions with
  | nil => exact absurd he List.not_mem_nil
  | cons existing rest ih =>
    rw [assignVersion]
    split_ifs with hbefore hsame hreplace
    · rcases List.mem_cons.1 he with rfl | he
      · exact .inl List.mem_cons_self
      · exact (ih he).imp (List.mem_cons_of_mem _) fun h => ⟨List.mem_cons_of_mem _ h.1, h.2⟩
    · rcases List.mem_cons.1 he with rfl | he
      · exact .inr ⟨List.mem_cons_self, hsame.1.symm, hsame.2.symm⟩
      · exact .inl (List.mem_cons_of_mem _ he)
    · exact .inl he
    · exact .inl (List.mem_cons_of_mem _ he)

lemma keepReachable_of_descendant {g : ForkGraph} {latestRootSlot newRootSlot : Slot}
    {first : Option (Option Environment)} {e : LoadedProgram χ}
    (he : e ∈ versions) (hfork : g.IsOnFork newRootSlot e.deploymentSlot) :
    e ∈ keepReachable g latestRootSlot newRootSlot first versions := by
  induction versions generalizing first with
  | nil => exact absurd he List.not_mem_nil
  | cons a rest ih =>
    rw [keepReachable.eq_def]
    dsimp only
    rcases List.mem_cons.1 he with rfl | he
    · rw [if_pos hfork.le, if_pos hfork.descendant]
      exact List.mem_cons_self
    · have hrest : ∀ first', e ∈ a :: keepReachable g latestRootSlot newRootSlot first' rest :=
        fun first' => List.mem_cons_of_mem _ (ih he)
      split_ifs
      · exact hrest _
      · exact ih he
      · split
        · exact hrest _
        · split
          · split_ifs
            · exact hrest _
            · exact ih he
          · exact ih he
      · exact ih he

/-- A rooted version is dropped only for one that stands before it in the search and is not for
another environment. -/
lemma keepReachable_of_rooted {g : ForkGraph} {latestRootSlot newRootSlot : Slot}
    (hsorted : versions.Pairwise fun a b => b.Before a) {e : LoadedProgram χ} (he : e ∈ versions)
    (hfork : g.relationship e.deploymentSlot newRootSlot = .ancestor)
    (hdropped : e ∉ keepReachable g latestRootSlot newRootSlot none versions) :
    ∃ f ∈ keepReachable g latestRootSlot newRootSlot none versions, e.Before f ∧
      f.deploymentSlot < newRootSlot ∧ ¬ e.OtherEnvironment f := by
  have hlt := g.lt_of_ancestor hfork
  -- once the first rooted entry is known, it is the one the version is dropped for
  have hknown : ∀ (env : Option Environment) (l : List (LoadedProgram χ)), e ∈ l →
      e ∉ keepReachable g latestRootSlot newRootSlot (some env) l →
      ∀ f : LoadedProgram χ, f.program.getEnvironment = env → ¬ e.OtherEnvironment f := by
    intro env l
    induction l with
    | nil => exact fun he => absurd he List.not_mem_nil
    | cons a rest ih =>
      intro he hdropped f hf
      rw [keepReachable.eq_def] at hdropped
      dsimp only at hdropped
      have hcons : e ∉ a :: keepReachable g latestRootSlot newRootSlot (some env) rest →
          ¬ e.OtherEnvironment f := by
        intro hnotMem
        obtain ⟨hne, hrest⟩ := not_or.1 (mt List.mem_cons.2 hnotMem)
        exact ih ((List.mem_cons.1 he).resolve_left hne) hrest f hf
      rcases List.mem_cons.1 he with rfl | he
      · rw [if_neg (not_le.2 hlt), if_pos (.inl hfork)] at hdropped
        rintro ⟨hx, hy, hne⟩
        obtain ⟨x, hx⟩ := Option.ne_none_iff_exists'.1 hx
        obtain ⟨y, hy⟩ := Option.ne_none_iff_exists'.1 hy
        rw [hx, hy, ne_eq, Option.some.injEq] at hne
        rw [← hf, hy, hx] at hdropped
        dsimp only at hdropped
        rw [if_pos hne] at hdropped
        exact hdropped List.mem_cons_self
      · split_ifs at hdropped
        · exact hcons hdropped
        · exact ih he hdropped f hf
        · split at hdropped
          · split_ifs at hdropped
            · exact hcons hdropped
            · exact ih he hdropped f hf
          · exact ih he hdropped f hf
        · exact ih he hdropped f hf
  induction versions with
  | nil => exact absurd he List.not_mem_nil
  | cons a rest ih =>
    obtain ⟨hfirst, hsorted⟩ := List.pairwise_cons.1 hsorted
    rw [keepReachable.eq_def] at hdropped ⊢
    dsimp only at hdropped ⊢
    rcases List.mem_cons.1 he with rfl | he
    · rw [if_neg (not_le.2 hlt), if_pos (.inl hfork)] at hdropped
      exact absurd List.mem_cons_self hdropped
    · by_cases hafter : newRootSlot ≤ a.deploymentSlot
      · rw [if_pos hafter] at hdropped ⊢
        split_ifs at hdropped ⊢ with hrelation
        · obtain ⟨f, hf, hcase⟩ := ih hsorted he (mt (List.mem_cons_of_mem _) hdropped)
          exact ⟨f, List.mem_cons_of_mem _ hf, hcase⟩
        · exact ih hsorted he hdropped
      · rw [if_neg hafter] at hdropped ⊢
        split_ifs at hdropped ⊢ with hrooted
        · refine ⟨a, List.mem_cons_self, hfirst e he, not_le.1 hafter, ?_⟩
          exact hknown _ rest he (mt (List.mem_cons_of_mem _) hdropped) a rfl
        · exact ih hsorted he hdropped

namespace ProgramCache

lemma deploymentSlot_of_answer {slot : Slot} {environments : ProgramRuntimeEnvironments}
    {criteria : LoadedProgramMatchCriteria} {e found : LoadedProgram χ}
    (h : answer slot environments criteria e = some found) :
    found.deploymentSlot = e.deploymentSlot := by
  rcases answer_eq_some h with rfl | ⟨-, rfl⟩
  · rfl
  · rfl

end ProgramCache

/-! ## Runs -/

/-- A cache, and what was assigned to it. The entries in force are those that no change of the
environments has made useless. -/
structure CacheHistory (χ : Type) where
  cache : ProgramCache χ
  assigned : List (Pubkey × LoadedProgram χ)
  inForce : List (Pubkey × LoadedProgram χ)

namespace CacheHistory

def start (rootSlot : Slot) (rootEpoch : Epoch) (environments : ProgramRuntimeEnvironments) :
    CacheHistory χ :=
  ⟨.new rootSlot rootEpoch environments, [], []⟩

def stillInForce (outdated : Option ProgramRuntimeEnvironments) (e : LoadedProgram χ) : Bool :=
  match outdated with
  | none => true
  | some environments => e.matchesEnvironment environments

def record (g : ForkGraph) (h : CacheHistory χ) (op : CacheOp χ) : CacheHistory χ where
  cache := op.apply g h.cache
  assigned := match op with
    | .assign key entry _ => (key, entry) :: h.assigned
    | _ => h.assigned
  inForce := match op with
    | .assign key entry _ => (key, entry) :: h.inForce
    | .prune _ newRootEpoch =>
      h.inForce.filter fun p => stillInForce (h.cache.environmentsAtRoot newRootEpoch) p.2
    | _ => h.inForce

/-- What is asked of an operation: later deployments are not effective earlier, entries for the
same slots are of one kind, the root moves along its fork with effective entries, and a batch is on
a fork of the root with entries for its environments. -/
def Orderly (g : ForkGraph) (h : CacheHistory χ) : CacheOp χ → Prop
  | .assign key entry _ =>
    (∀ p ∈ h.assigned, p.1 = key →
      (p.2.deploymentSlot < entry.deploymentSlot → p.2.effectiveSlot ≤ entry.effectiveSlot) ∧
      (entry.deploymentSlot < p.2.deploymentSlot → entry.effectiveSlot ≤ p.2.effectiveSlot) ∧
      (p.2.SameSlots entry → p.2.SameKind entry)) ∧
    (entry.deploymentSlot ≤ h.cache.latestRootSlot →
      g.IsOnFork entry.deploymentSlot h.cache.latestRootSlot)
  | .prune newRootSlot _ =>
    g.IsOnFork h.cache.latestRootSlot newRootSlot ∧
    ∀ p ∈ h.inForce, ∀ q ∈ h.inForce, p.1 = q.1 → p.2.deploymentSlot = q.2.deploymentSlot →
      g.IsOnFork p.2.deploymentSlot newRootSlot → p.2.effectiveSlot < q.2.effectiveSlot →
      p.2.OtherEnvironment q.2 ∨ q.2.effectiveSlot ≤ newRootSlot ∧ q.2.FitsFor p.2
  | .extract searchFor batch =>
    g.IsOnFork h.cache.latestRootSlot batch.slot ∧
    ∀ item ∈ searchFor, ∀ p ∈ h.assigned, p.1 = item.key →
      g.IsOnFork p.2.deploymentSlot batch.slot →
      ∃ q ∈ h.inForce, q.1 = item.key ∧ g.IsOnFork q.2.deploymentSlot batch.slot ∧
        p.2.deploymentSlot ≤ q.2.deploymentSlot ∧ q.2.Serves batch.slot batch.environments
  | .anticipate _ => True

instance (g : ForkGraph) (h : CacheHistory χ) (op : CacheOp χ) : Decidable (h.Orderly g op) := by
  cases op <;> unfold Orderly <;> infer_instance

/-- Every operation of the run is orderly where it stands. -/
def OrderlyRun (g : ForkGraph) : CacheHistory χ → List (CacheOp χ) → Prop
  | _, [] => True
  | h, op :: ops => h.Orderly g op ∧ OrderlyRun g (h.record g op) ops

instance decidableOrderlyRun (g : ForkGraph) :
    (h : CacheHistory χ) → (ops : List (CacheOp χ)) → Decidable (OrderlyRun g h ops)
  | _, [] => isTrue trivial
  | h, op :: ops =>
    have := decidableOrderlyRun g (h.record g op) ops
    inferInstanceAs (Decidable (h.Orderly g op ∧ OrderlyRun g (h.record g op) ops))

def LatestOn (g : ForkGraph) (h : CacheHistory χ) (key : Pubkey) (slot : Slot)
    (e : LoadedProgram χ) : Prop :=
  g.IsOnFork e.deploymentSlot slot ∧
    ∀ x, (key, x) ∈ h.assigned → g.IsOnFork x.deploymentSlot slot → x.deploymentSlot ≤ e.deploymentSlot

structure Sound (g : ForkGraph) (h : CacheHistory χ) : Prop where
  cached_inForce : ∀ key, ∀ e ∈ h.cache.versions key, (key, e) ∈ h.inForce
  inForce_assigned : ∀ p ∈ h.inForce, p ∈ h.assigned
  ordered : ∀ key x y, (key, x) ∈ h.assigned → (key, y) ∈ h.assigned →
    x.deploymentSlot < y.deploymentSlot → x.effectiveSlot ≤ y.effectiveSlot
  rooted : ∀ key, ∀ e ∈ h.cache.versions key, e.deploymentSlot ≤ h.cache.latestRootSlot →
    g.IsOnFork e.deploymentSlot h.cache.latestRootSlot
  covered : ∀ key slot y, g.IsOnFork h.cache.latestRootSlot slot → (key, y) ∈ h.inForce →
    h.LatestOn g key slot y → ∃ z ∈ h.cache.versions key, z.Covers h.cache.latestRootSlot y

open ProgramCache LoadedProgram List

variable {g : ForkGraph} {h : CacheHistory χ}
  {e y z x found : LoadedProgram χ} {key : Pubkey} {environments : ProgramRuntimeEnvironments} {slot : Slot} {searchFor : List SearchItem} {ops : List (CacheOp χ)}

lemma sound_start (g : ForkGraph) (rootSlot : Slot) (rootEpoch : Epoch)
    (environments : ProgramRuntimeEnvironments) :
    Sound g (start rootSlot rootEpoch environments : CacheHistory χ) where
  cached_inForce key e he := by
    rw [start, versions_new] at he
    exact absurd he not_mem_nil
  inForce_assigned p hp := hp
  ordered key x y hx := absurd hx not_mem_nil
  rooted key e he := by
    rw [start, versions_new] at he
    exact absurd he not_mem_nil
  covered key slot y _ hy := absurd hy not_mem_nil

namespace Sound

variable (hs : Sound g h)

include hs

lemma cached_assigned (he : e ∈ h.cache.versions key) :
    (key, e) ∈ h.assigned :=
  hs.inForce_assigned _ (hs.cached_inForce key e he)

lemma deploymentSlot_le_of_before
    (hx : (key, x) ∈ h.assigned) (hy : (key, y) ∈ h.assigned) (hbefore : x.Before y) :
    x.deploymentSlot ≤ y.deploymentSlot := by
  by_contra hlt
  have hle := hs.ordered key y x hy hx (not_le.1 hlt)
  rcases hbefore with heffective | ⟨-, hdeployment⟩
  · exact absurd hle (not_le.2 heffective)
  · exact hlt hdeployment.le

/-! ## Assigning an entry -/

section assign

variable {target : Pubkey} {entry : LoadedProgram χ} {hentry : entry.program ≠ .delayVisibility}
  (horderly : h.Orderly g (.assign target entry hentry))

omit hs in
lemma mem_assign (he : e ∈ (h.record g (.assign target entry hentry)).cache.versions key) :
    (key, e) = (target, entry) ∨ e ∈ h.cache.versions key := by
  change e ∈ (h.cache.assignProgram target entry).1.versions key at he
  rw [versions_assignProgram] at he
  split_ifs at he with hkey
  · subst hkey
    exact (mem_assignVersion he).imp_left fun heq => by rw [heq]
  · exact .inr he

include horderly

lemma covers_assign (hz : z ∈ h.cache.versions key) (hcovers : z.Covers h.cache.latestRootSlot y) :
    ∃ z' ∈ (h.record g (.assign target entry hentry)).cache.versions key,
      z'.Covers h.cache.latestRootSlot y := by
  change ∃ z' ∈ (h.cache.assignProgram target entry).1.versions key, _
  rw [versions_assignProgram]
  split_ifs with hkey
  · subst hkey
    rcases mem_or_replaced_assignVersion hz with hkept | ⟨hnew, hslots⟩
    · exact ⟨z, hkept, hcovers⟩
    · have hslots' : z.SameSlots entry := ⟨hslots.1.symm, hslots.2.symm⟩
      have hkind := (horderly.1 (_, z) (hs.cached_assigned hz) rfl).2.2 hslots'
      exact ⟨entry, hnew, hcovers.of_sameSlots hslots ⟨hkind.1.symm, hkind.2.symm⟩⟩
  · exact ⟨z, hz, hcovers⟩

lemma covers_entry :
    ∃ z ∈ (h.record g (.assign target entry hentry)).cache.versions target,
      z.Covers h.cache.latestRootSlot entry := by
  change ∃ z ∈ (h.cache.assignProgram target entry).1.versions target, _
  rw [versions_assignProgram, if_pos rfl]
  obtain ⟨z, hz, rfl | ⟨hslots, hcached⟩⟩ :=
    exists_assignVersion_of_entry entry (h.cache.versions target)
  · exact ⟨z, hz, covers_of_sameSlots ⟨rfl, rfl⟩ ⟨rfl, rfl⟩⟩
  · have hkind := (horderly.1 (_, z) (hs.cached_assigned hcached) rfl).2.2 hslots
    exact ⟨z, hz, covers_of_sameSlots hslots hkind⟩

lemma assign : Sound g (h.record g (.assign target entry hentry)) where
  cached_inForce key e he := by
    rcases mem_assign he with heq | he
    · exact heq ▸ mem_cons_self
    · exact mem_cons_of_mem _ (hs.cached_inForce key e he)
  inForce_assigned p hp := by
    rcases mem_cons.1 hp with rfl | hp
    · exact mem_cons_self
    · exact mem_cons_of_mem _ (hs.inForce_assigned p hp)
  ordered key x y hx hy hlt := by
    rcases mem_cons.1 hx with hnew | hold
    · cases hnew
      rcases mem_cons.1 hy with hnew' | hold'
      · obtain ⟨-, rfl⟩ := Prod.mk.inj hnew'
        exact le_rfl
      · exact (horderly.1 (_, y) hold' rfl).2.1 hlt
    · rcases mem_cons.1 hy with hnew' | hold'
      · cases hnew'
        exact (horderly.1 (_, x) hold rfl).1 hlt
      · exact hs.ordered key x y hold hold' hlt
  rooted key e he hle := by
    rcases mem_assign he with heq | he
    · obtain ⟨-, rfl⟩ := Prod.mk.inj heq
      exact horderly.2 hle
    · exact hs.rooted key e he hle
  covered key slot y hroot hy hlatest := by
    rcases mem_cons.1 hy with hy | hy
    · cases hy
      exact hs.covers_entry horderly
    · have hlatest' : h.LatestOn g key slot y :=
        ⟨hlatest.1, fun x hx => hlatest.2 x (mem_cons_of_mem _ hx)⟩
      obtain ⟨z, hz, hcovers⟩ := hs.covered key slot y hroot hy hlatest'
      exact hs.covers_assign horderly hz hcovers

end assign

/-! ## Moving the root -/

section prune

variable {newRootSlot : Slot} {newRootEpoch : Epoch}
  (horderly : h.Orderly g (.prune newRootSlot newRootEpoch))

omit hs in
lemma mem_prune_iff :
    e ∈ (h.record g (.prune newRootSlot newRootEpoch)).cache.versions key ↔
      e ∈ keepReachable g h.cache.latestRootSlot newRootSlot none (h.cache.versions key).reverse ∧
        stillInForce (h.cache.environmentsAtRoot newRootEpoch) e := by
  change e ∈ (h.cache.prune g newRootSlot newRootEpoch).versions key ↔ _
  rw [← mem_reverse, versions_prune, keptVersions, mem_filter]
  rfl

omit hs in
lemma cached_of_kept
    (he : e ∈ keepReachable g h.cache.latestRootSlot newRootSlot none (h.cache.versions key).reverse) :
    e ∈ h.cache.versions key :=
  mem_reverse.1 ((keepReachable_sublist _ _ _ _ _).subset he)

omit hs in
lemma stillInForce_of_fitsFor {outdated : Option ProgramRuntimeEnvironments}
    (hfits : z.FitsFor y) (hy : stillInForce outdated y) : stillInForce outdated z := by
  cases outdated with
  | none => rfl
  | some environments => exact hfits.matchesEnvironment hy

include horderly

lemma rooted_of_kept
    (he : e ∈ keepReachable g h.cache.latestRootSlot newRootSlot none (h.cache.versions key).reverse)
    (hle : e.deploymentSlot ≤ newRootSlot) : g.IsOnFork e.deploymentSlot newRootSlot := by
  rcases rooted_or_after_of_kept he with hafter | ⟨-, hfork | hrooted⟩
  · have heq : e.deploymentSlot = newRootSlot := le_antisymm hle hafter.le
    exact ForkGraph.isOnFork_iff.2 (.inl heq)
  · exact hfork
  · exact (hs.rooted key e (cached_of_kept he) hrooted).trans horderly.1

lemma exists_kept_covers (hroot : g.IsOnFork newRootSlot slot) (hlatest : h.LatestOn g key slot y)
    (hz : z ∈ h.cache.versions key) (hcovers : z.Covers h.cache.latestRootSlot y) :
    ∃ z' ∈ keepReachable g h.cache.latestRootSlot newRootSlot none (h.cache.versions key).reverse,
      z'.Covers newRootSlot y := by
  have hmono := hcovers.mono horderly.1.le
  by_cases hkept :
      z ∈ keepReachable g h.cache.latestRootSlot newRootSlot none (h.cache.versions key).reverse
  · exact ⟨z, hkept, hmono⟩
  have hfork : g.IsOnFork z.deploymentSlot slot := hcovers.1 ▸ hlatest.1
  have hbefore_root : ¬ newRootSlot ≤ z.deploymentSlot := fun hle =>
    hkept (keepReachable_of_descendant (mem_reverse.2 hz) (hroot.chain hfork hle))
  have hrooted : g.IsOnFork z.deploymentSlot newRootSlot :=
    hfork.chain hroot (not_le.1 hbefore_root).le
  have hancestor : g.relationship z.deploymentSlot newRootSlot = .ancestor :=
    (ForkGraph.isOnFork_iff.1 hrooted).resolve_left fun heq => hbefore_root heq.ge
  obtain ⟨f, hf, hbefore, hlt, hsame⟩ := keepReachable_of_rooted
    (pairwise_reverse.2 (versions_sorted h.cache key)) (mem_reverse.2 hz) hancestor hkept
  have hf_cached := cached_of_kept hf
  -- the entry it is dropped for is of the same deployment, as that is the latest one
  have hf_fork := (hs.rooted_of_kept horderly hf hlt.le).trans hroot
  have hdeployment : f.deploymentSlot = z.deploymentSlot :=
    le_antisymm (hcovers.1 ▸ hlatest.2 f (hs.cached_assigned hf_cached) hf_fork)
      (hs.deploymentSlot_le_of_before (hs.cached_assigned hz) (hs.cached_assigned hf_cached) hbefore)
  have heffective : z.effectiveSlot < f.effectiveSlot :=
    hbefore.resolve_right fun hcase => hcase.2.ne hdeployment.symm
  have hcase := horderly.2 (key, z) (hs.cached_inForce key z hz) (key, f)
    (hs.cached_inForce key f hf_cached) rfl hdeployment.symm hrooted heffective
  obtain ⟨heffective_root, hfits⟩ := hcase.resolve_left hsame
  exact ⟨f, hf, hcovers.of_after hdeployment heffective heffective_root hfits⟩

lemma prune : Sound g (h.record g (.prune newRootSlot newRootEpoch)) where
  cached_inForce key e he := by
    obtain ⟨hkept, hstill⟩ := mem_prune_iff.1 he
    exact mem_filter.2 ⟨hs.cached_inForce key e (cached_of_kept hkept), hstill⟩
  inForce_assigned p hp := hs.inForce_assigned p (mem_filter.1 hp).1
  ordered := hs.ordered
  rooted key e he hle := hs.rooted_of_kept horderly (mem_prune_iff.1 he).1 hle
  covered key slot y hroot hy hlatest := by
    obtain ⟨hy, hstill⟩ := mem_filter.1 hy
    obtain ⟨z, hz, hcovers⟩ := hs.covered key slot y (horderly.1.trans hroot) hy hlatest
    obtain ⟨z', hz', hcovers'⟩ := hs.exists_kept_covers horderly hroot hlatest hz hcovers
    have hstill' := stillInForce_of_fitsFor hcovers'.fitsFor hstill
    exact ⟨z', mem_prune_iff.2 ⟨hz', hstill'⟩, hcovers'⟩

end prune

lemma extract (searchFor : List SearchItem) (batch : TxBatch χ) :
    Sound g (h.record g (.extract searchFor batch)) := by
  have hversions : ∀ key, (h.record g (.extract searchFor batch)).cache.versions key =
      h.cache.versions key := fun key => versions_extract searchFor h.cache batch none key
  have hroot : (h.record g (.extract searchFor batch)).cache.latestRootSlot =
      h.cache.latestRootSlot := latestRootSlot_extract searchFor h.cache batch none
  constructor
  · intro key e he
    exact hs.cached_inForce key e (hversions key ▸ he)
  · exact hs.inForce_assigned
  · exact hs.ordered
  · intro key e he hle
    rw [hroot] at hle ⊢
    exact hs.rooted key e (hversions key ▸ he) hle
  · intro key slot y hfork hy hlatest
    rw [hroot] at hfork ⊢
    rw [hversions]
    exact hs.covered key slot y hfork hy hlatest

lemma anticipate (environments : ProgramRuntimeEnvironments) :
    Sound g (h.record g (.anticipate environments)) :=
  ⟨hs.cached_inForce, hs.inForce_assigned, hs.ordered, hs.rooted, hs.covered⟩

lemma step {op : CacheOp χ} (horderly : h.Orderly g op) : Sound g (h.record g op) := by
  cases op with
  | assign key entry hentry => exact hs.assign horderly
  | prune newRootSlot newRootEpoch => exact hs.prune horderly
  | extract searchFor batch => exact hs.extract searchFor batch
  | anticipate environments => exact hs.anticipate environments

/-! ## What a batch gets -/

omit hs in
lemma exists_latestOn {batch : TxBatch χ}
    (horderly : h.Orderly g (.extract searchFor batch)) {item : SearchItem} (hitem : item ∈ searchFor)
    (hx : (item.key, x) ∈ h.assigned) (hfork : g.IsOnFork x.deploymentSlot batch.slot) :
    ∃ y, (item.key, y) ∈ h.inForce ∧ h.LatestOn g item.key batch.slot y ∧
      y.Serves batch.slot batch.environments := by
  classical
  let onFork := h.assigned.toFinset.filter fun p =>
    p.1 = item.key ∧ g.IsOnFork p.2.deploymentSlot batch.slot
  have hmem : ∀ z, (item.key, z) ∈ h.assigned → g.IsOnFork z.deploymentSlot batch.slot →
      (item.key, z) ∈ onFork := fun z hz hzfork =>
    Finset.mem_filter.2 ⟨mem_toFinset.2 hz, rfl, hzfork⟩
  obtain ⟨⟨key, m⟩, hm, hmax⟩ := Finset.exists_max_image onFork
    (fun p => p.2.deploymentSlot) ⟨_, hmem x hx hfork⟩
  obtain ⟨hm, rfl, hmfork⟩ := Finset.mem_filter.1 hm
  obtain ⟨⟨_, y⟩, hy, rfl, hyfork, hle, hserves⟩ :=
    horderly.2 item hitem (_, m) (mem_toFinset.1 hm) rfl hmfork
  exact ⟨y, hy, ⟨hyfork, fun z hz hzfork => (hmax _ (hmem z hz hzfork)).trans hle⟩, hserves⟩

lemma le_of_lookup {batch : TxBatch χ}
    (horderly : h.Orderly g (.extract searchFor batch)) {item : SearchItem} (hitem : item ∈ searchFor)
    (hfound : lookup g h.cache batch item = some found) (hx : (item.key, x) ∈ h.assigned)
    (hfork : g.IsOnFork x.deploymentSlot batch.slot) :
    x.deploymentSlot ≤ found.deploymentSlot := by
  obtain ⟨y, hy, hlatest, hserves⟩ := exists_latestOn horderly hitem hx hfork
  obtain ⟨z, hz, hcovers⟩ := hs.covered item.key batch.slot y horderly.1 hy hlatest
  have hz_stops : StopsAt g h.cache.latestRootSlot batch.slot batch.environments z :=
    ⟨.inr (hcovers.1 ▸ hlatest.1), hcovers.serves horderly.1.le hserves⟩
  rw [lookup_eq, Option.bind_eq_some_iff] at hfound
  obtain ⟨e, hstop, hanswer⟩ := hfound
  have he := mem_reverse.1 (mem_of_find?_eq_some hstop)
  have hle : z.deploymentSlot ≤ e.deploymentSlot := by
    rcases eq_or_before_of_stop hstop hz hz_stops with rfl | hbefore
    · exact le_rfl
    · exact hs.deploymentSlot_le_of_before (hs.cached_assigned hz) (hs.cached_assigned he) hbefore
  calc x.deploymentSlot ≤ y.deploymentSlot := hlatest.2 x hx hfork
    _ = z.deploymentSlot := hcovers.1.symm
    _ ≤ e.deploymentSlot := hle
    _ = found.deploymentSlot := (deploymentSlot_of_answer hanswer).symm

end Sound

/-! ## Whole runs -/

lemma cache_foldl_record (ops : List (CacheOp χ)) (h : CacheHistory χ) :
    (ops.foldl (record g) h).cache = h.cache.run g ops := by
  induction ops generalizing h with
  | nil => rfl
  | cons op ops ih => exact ih (h.record g op)

lemma assigned_foldl_record {p : Pubkey × LoadedProgram χ} (ops : List (CacheOp χ))
    {h : CacheHistory χ} (hp : p ∈ h.assigned) : p ∈ (ops.foldl (record g) h).assigned := by
  induction ops generalizing h with
  | nil => exact hp
  | cons op ops ih =>
    apply ih
    cases op with
    | assign key entry hentry => exact mem_cons_of_mem _ hp
    | prune newRootSlot newRootEpoch => exact hp
    | extract searchFor batch => exact hp
    | anticipate environments => exact hp

lemma assigned_of_mem {he : e.program ≠ .delayVisibility}
    (h : CacheHistory χ) (hmem : CacheOp.assign key e he ∈ ops) :
    (key, e) ∈ (ops.foldl (record g) h).assigned := by
  induction ops generalizing h with
  | nil => exact absurd hmem not_mem_nil
  | cons op ops ih =>
    rcases mem_cons.1 hmem with rfl | hmem
    · exact assigned_foldl_record ops mem_cons_self
    · exact ih _ hmem

lemma sound_foldl_record {rest : List (CacheOp χ)} {h : CacheHistory χ} (hs : Sound g h)
    (horderly : OrderlyRun g h (ops ++ rest)) :
    Sound g (ops.foldl (record g) h) ∧ OrderlyRun g (ops.foldl (record g) h) rest := by
  induction ops generalizing h with
  | nil => exact ⟨hs, horderly⟩
  | cons op ops ih => exact ih (hs.step horderly.1) horderly.2

end CacheHistory

/-! ## A program that is compiled again and then deployed again -/

lemma loadProgramWithPubkey_ne_delayVisibility (cache : ProgramCache χ) (slot : Slot)
    (loaded : ProgramAccountLoadResult χ) (effectiveEpoch : Epoch) (firstSlotInEpoch : Slot) :
    (loadProgramWithPubkey cache slot loaded effectiveEpoch firstSlotInEpoch).program ≠
      .delayVisibility := by
  have hdeployed : ∀ {kind : χ → LoadedProgramType χ}, (∀ x, kind x ≠ .delayVisibility) →
      ∀ {environment executable size slot},
        (deployedEntry kind environment executable size slot).program ≠ .delayVisibility := by
    intro kind hkind environment executable size slot
    cases executable with
    | none => exact (nofun : LoadedProgramType.failedVerification environment ≠ .delayVisibility)
    | some x => exact hkind x
  have hentry : ∀ (entry : LoadedProgram χ) (condition : Prop) [Decidable condition],
      entry.program ≠ .delayVisibility →
      (if condition then { entry with effectiveSlot := max entry.effectiveSlot firstSlotInEpoch }
        else entry).program ≠ .delayVisibility := by
    intro entry condition _ h
    split_ifs <;> exact h
  unfold loadProgramWithPubkey
  refine hentry _ _ ?_
  cases loaded with
  | accountNotFound => exact (nofun : LoadedProgramType.closed ≠ .delayVisibility)
  | invalidAccountData environment =>
    exact (nofun : LoadedProgramType.failedVerification environment ≠ .delayVisibility)
  | programOfLoaderV1 executable size =>
    refine hdeployed ?_
    exact nofun
  | programOfLoaderV2 executable size =>
    refine hdeployed ?_
    exact nofun
  | programOfLoaderV3 executable size slot =>
    refine hdeployed ?_
    exact nofun
  | programOfLoaderV4 executable size slot =>
    refine hdeployed ?_
    exact nofun

lemma deployed_ne_delayVisibility :
    (⟨.legacyV1 1 (), 0, 1, 2⟩ : LoadedProgram Unit).program ≠ .delayVisibility := by decide

lemma redeployed_ne_delayVisibility :
    (⟨.legacyV1 1 (), 0, 5, 6⟩ : LoadedProgram Unit).program ≠ .delayVisibility := by decide

/-- The cache of a program that was deployed at slot 1, when the environments of the next epoch
are known. -/
def beforeRecompilation : ProgramCache Unit :=
  (ProgramCache.new 0 0 ⟨1, 1⟩).run linearChain
    [.assign 7 ⟨.legacyV1 1 (), 0, 1, 2⟩ deployed_ne_delayVisibility, .anticipate ⟨2, 2⟩]

/-- The program for the next epoch, which starts at slot 100. -/
def recompiledProgram (deploymentSlot : Slot) : LoadedProgram Unit :=
  loadProgramWithPubkey beforeRecompilation 9 (.programOfLoaderV3 (some ()) 0 deploymentSlot) 1 100

/-- The program is compiled for the next epoch, and deployed again at slot 50. -/
def recompiledThenDeployed : List (CacheOp Unit) :=
  [.assign 7 ⟨.legacyV1 1 (), 0, 1, 2⟩ deployed_ne_delayVisibility, .anticipate ⟨2, 2⟩,
    .assign 7 (recompiledProgram 1) (loadProgramWithPubkey_ne_delayVisibility _ _ _ _ _),
    .assign 7 ⟨.legacyV1 1 (), 0, 50, 51⟩ (by decide)]

/-- The program is deployed again at slot 5, and compiled for the next epoch after that. -/
def deployedThenRecompiled : List (CacheOp Unit) :=
  [.assign 7 ⟨.legacyV1 1 (), 0, 1, 2⟩ deployed_ne_delayVisibility,
    .assign 7 ⟨.legacyV1 1 (), 0, 5, 6⟩ redeployed_ne_delayVisibility, .anticipate ⟨2, 2⟩,
    .assign 7 (recompiledProgram 5) (loadProgramWithPubkey_ne_delayVisibility _ _ _ _ _),
    .prune 20 0]

lemma deployedThenRecompiled_orderly :
    CacheHistory.OrderlyRun linearChain (.start 0 0 ⟨1, 1⟩)
      (deployedThenRecompiled ++ [.extract [⟨7, .noCriteria, 1⟩] ⟨∅, 25, ⟨1, 1⟩⟩]) := by
  decide +kernel

end Nuah
