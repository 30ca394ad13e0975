import Nuah.Proofs.CrdsRuns
import Nuah.Lib.Champion

/-!
# Convergence of gossip tables

Without removals, a label has the value that a register would have. Where a node instance keeps
its token and its timestamp, updating is taking the greater value in a linear order.
-/

namespace Nuah.Proofs

open List Option

open IndexMaps (IndexMap)
open Champion (IsChampion)

variable {β : Type} {value other : CrdsValue β} {values : List (CrdsValue β)}

def beats (hashOf : CrdsValue β → Hash) (value other : CrdsValue β) : Bool :=
  match value.instanceOverrides other with
  | some out => out
  | none =>
    match compare value.wallclock other.wallclock with
    | .lt => false
    | .gt => true
    | .eq => decide (hashOf other < hashOf value)

/-- A register for the values of a label. -/
def update (hashOf : CrdsValue β → Hash) (label : CrdsValueLabel) (held : Option (CrdsValue β))
    (value : CrdsValue β) : Option (CrdsValue β) :=
  if value.label = label then
    match held with
    | none => some value
    | some other => if beats hashOf value other then some value else some other
  else held

section

variable (hashOf : CrdsValue β → Hash)

include hashOf

lemma update_of_ne {label : CrdsValueLabel} (held : Option (CrdsValue β))
    (h : value.label ≠ label) : update hashOf label held value = held := if_neg h

lemma update_none (value : CrdsValue β) :
    update hashOf value.label none value = some value := if_pos rfl

lemma update_some (value other : CrdsValue β) :
    update hashOf value.label (some other) value =
      if beats hashOf value other then some value else some other := if_pos rfl

end

/-- What the register of a label holds after the values, in their order. -/
def winner (hashOf : CrdsValue β → Hash) (label : CrdsValueLabel) (values : List (CrdsValue β)) :
    Option (CrdsValue β) :=
  values.foldl (update hashOf label) none

def stored (crds : Crds β) (label : CrdsValueLabel) : Option (CrdsValue β × Hash) :=
  (crds.table.get label).map fun entry => (entry.value, entry.valueHash)

lemma overrides_eq_beats (hashOf : CrdsValue β → Hash) {old : VersionedCrdsValue β}
    (hlabel : value.label = old.value.label) (hhash : old.valueHash = hashOf old.value) :
    overrides hashOf value old = some (beats hashOf value old.value) := by
  rw [overrides, if_pos hlabel, beats, hhash]
  cases value.instanceOverrides old.value with
  | some out => rfl
  | none => cases compare value.wallclock old.value.wallclock <;> rfl

section Insertion

variable {crds crds' : Crds β} {value old : VersionedCrdsValue β} {i now : Nat}

lemma stored_insertFail (value : VersionedCrdsValue β) (route : GossipRoute) (label : CrdsValueLabel) :
    stored (crds.insertFail i old value now route).1 label = stored crds label := by
  unfold Crds.insertFail
  split_ifs
  · rfl
  · split
    · exact IndexMap.map_get_modifyIndex fun _ => rfl
    · rfl

lemma stored_of_table {label : CrdsValueLabel} (h : crds'.table = crds.table.insert value.value.label value) :
    stored crds' label =
      if label = value.value.label then some (value.value, value.valueHash) else stored crds label := by
  rw [stored, h, IndexMap.get_insert]
  split_ifs <;> rfl

lemma insert_stored (hashOf : CrdsValue β → Hash) (h : Indexed crds)
    (hhash : ∀ label value hash, stored crds label = some (value, hash) → hash = hashOf value)
    (value : CrdsValue β) (now : Nat) (route : GossipRoute) :
    ∃ crds' result, crds.insert hashOf value now route = some (crds', result) ∧ Indexed crds' ∧
      ∀ label, stored crds' label =
        (update hashOf label ((stored crds label).map Prod.fst) value).map fun v => (v, hashOf v) := by
  obtain ⟨crds', result, heq, h', -⟩ := insert_indexed hashOf h value now route
  refine ⟨crds', result, heq, h', fun label => ?_⟩
  have hsame : ((stored crds label).map Prod.fst).map (fun v => (v, hashOf v)) = stored crds label := by
    cases hs : stored crds label with
    | none => rfl
    | some p => rw [map_some, map_some, ← hhash label p.1 p.2 hs]
  unfold Crds.insert at heq
  dsimp only at heq
  split at heq
  · rename_i hvacant
    obtain ⟨crds₁, hinsert, -, htable⟩ := insertVacant_indexed h hvacant rfl
    rw [hinsert] at heq
    obtain rfl : crds₁ = crds' := congrArg Prod.fst (Option.some.inj heq)
    rw [stored_of_table htable]
    by_cases hlabel : label = value.label
    · subst hlabel
      have hnone : stored crds value.label = none := by
        rw [stored, IndexMap.get, show crds.table.getIndexOf value.label = none from hvacant]
        rfl
      rw [hnone, map_none, update_none]
      exact if_pos rfl
    · rw [update_of_ne hashOf _ (Ne.symm hlabel), hsame]
      exact if_neg hlabel
  · rename_i i hindex
    obtain ⟨old, hold, hlabel'⟩ := h.exists_old hindex
    have hstored : stored crds value.label = some (old.value, old.valueHash) := by
      rw [stored, IndexMap.get, show crds.table.getIndexOf value.label = some i from hindex,
        bind_eq_bind, bind_some, hold]
      rfl
    have hout := overrides_eq_beats hashOf (hlabel'.symm : value.label = old.value.label)
      (hhash _ _ _ hstored)
    rw [hold, bind_eq_bind, bind_some] at heq
    obtain ⟨out, hout', heq⟩ := bind_eq_some_iff.1 heq
    obtain rfl : beats hashOf value old.value = out := mem_unique hout hout'
    cases hbeats : beats hashOf value old.value with
    | true =>
      rw [hbeats] at heq
      obtain ⟨crds₁, hinsert, -, htable⟩ := insertOver_indexed h hindex hold hlabel'.symm rfl now
      dsimp only at heq
      rw [hinsert] at heq
      obtain rfl : crds₁ = crds' := congrArg Prod.fst (Option.some.inj heq)
      rw [stored_of_table htable]
      by_cases hlabel : label = value.label
      · subst hlabel
        rw [hstored, map_some, update_some, hbeats]
        exact if_pos rfl
      · rw [update_of_ne hashOf _ (Ne.symm hlabel), hsame]
        exact if_neg hlabel
    | false =>
      rw [hbeats] at heq
      obtain rfl : _ = crds' := congrArg Prod.fst (Option.some.inj heq)
      rw [stored_insertFail]
      by_cases hlabel : label = value.label
      · subst hlabel
        rw [hstored, map_some, update_some, hbeats, hhash _ _ _ hstored]
        rfl
      · rw [update_of_ne hashOf _ (Ne.symm hlabel), hsame]

end Insertion

/-- A value, when it is inserted, and how it got here. -/
abbrev Insertion (β : Type) := CrdsValue β × Nat × GossipRoute

/-- The insertions one after the other, from `Crds::default`. -/
def insertRun (hashOf : CrdsValue β → Hash) (insertions : List (Insertion β)) : Option (Crds β) :=
  crdsRun hashOf (insertions.map fun (value, now, route) => .insert value now route)

lemma insertRun_stored (hashOf : CrdsValue β → Hash) (insertions : List (Insertion β)) :
    ∃ crds, insertRun hashOf insertions = some crds ∧ Indexed crds ∧ ∀ label,
      stored crds label = (winner hashOf label (insertions.map Prod.fst)).map fun v => (v, hashOf v) := by
  induction insertions using List.reverseRecOn with
  | nil => exact ⟨Crds.default, rfl, default_indexed, fun _ => rfl⟩
  | append_singleton insertions insertion ih =>
    obtain ⟨crds, heq, h, hstored⟩ := ih
    obtain ⟨value, now, route⟩ := insertion
    obtain ⟨crds', result, hinsert, h', hstored'⟩ := insert_stored hashOf h (by
      intro label value hash hs
      rw [hstored label] at hs
      obtain ⟨v, -, hv⟩ := map_eq_some_iff.1 hs
      cases hv
      rfl) value now route
    refine ⟨crds', ?_, h', fun label => ?_⟩
    · rw [insertRun, crdsRun] at heq ⊢
      rw [map_append, foldlM_append, heq]
      change (some crds >>= fun crds => CrdsCall.exec hashOf crds _ >>= some) = _
      rw [bind_eq_bind, bind_some, CrdsCall.exec, hinsert]
      rfl
    · have hheld : (stored crds label).map Prod.fst = winner hashOf label (insertions.map Prod.fst) := by
        rw [hstored label, Option.map_map]
        exact Option.map_id'
      rw [hstored' label, hheld, winner, winner, map_append, foldl_append]
      rfl

lemma insertRun_get (hashOf : CrdsValue β → Hash) (insertions : List (Insertion β)) :
    ∃ crds, insertRun hashOf insertions = some crds ∧ ∀ label,
      (crds.table.get label).map VersionedCrdsValue.value =
        winner hashOf label (insertions.map Prod.fst) := by
  obtain ⟨crds, heq, -, hstored⟩ := insertRun_stored hashOf insertions
  refine ⟨crds, heq, fun label => ?_⟩
  have hvalue := congrArg (Option.map Prod.fst) (hstored label)
  rw [stored, Option.map_map, Option.map_map] at hvalue
  exact hvalue.trans Option.map_id'

/-- Values of a label in the order in which they win: instances of a node by their start and then
their token, and everything else by wallclock and hash. -/
def precedence (hashOf : CrdsValue β → Hash) (value : CrdsValue β) : ℕ ×ₗ ℕ ×ₗ ℕ ×ₗ ℕ :=
  match value.data with
  | .nodeInstance node =>
    toLex (node.timestamp, toLex (node.token, toLex (value.wallclock, hashOf value)))
  | _ => toLex (0, toLex (0, toLex (value.wallclock, hashOf value)))

/-- Instances of a node with the same token were created at the same time. -/
def SameStart (value other : CrdsValue β) : Prop :=
  ∀ node node', value.data = .nodeInstance node → other.data = .nodeInstance node' →
    node.origin = node'.origin → node.token = node'.token → node.timestamp = node'.timestamp

lemma toLex_lt_iff {α γ : Type} [LT α] [LT γ] {a a' : α} {b b' : γ} :
    toLex (a, b) < toLex (a', b') ↔ a < a' ∨ a = a' ∧ b < b' := Prod.Lex.toLex_lt_toLex

lemma compare_wallclock_iff {w w' : Nat} {h h' : Hash} :
    (match compare w w' with | .lt => false | .gt => true | .eq => decide (h' < h)) = true ↔
      w' < w ∨ w' = w ∧ h' < h := by
  rcases lt_trichotomy w w' with hlt | heq | hgt
  · rw [compare_lt_iff_lt.2 hlt]
    simp
    omega
  · rw [compare_eq_iff_eq.2 heq]
    simp [heq]
  · rw [compare_gt_iff_gt.2 hgt]
    simp
    omega

lemma instance_cases (hlabel : value.label = other.label) :
    (∃ node node', value.data = .nodeInstance node ∧ other.data = .nodeInstance node' ∧
      node.origin = node'.origin) ∨
    (∀ node, value.data ≠ .nodeInstance node) ∧ ∀ node, other.data ≠ .nodeInstance node := by
  obtain ⟨_, da⟩ := value
  obtain ⟨_, db⟩ := other
  cases da <;> cases db <;> simp_all [CrdsValue.label, CrdsValue.pubkey]

section

variable (hashOf : CrdsValue β → Hash)

include hashOf

lemma precedence_of_instance {node : NodeInstance} (h : value.data = .nodeInstance node) :
    precedence hashOf value =
      toLex (node.timestamp, toLex (node.token, toLex (value.wallclock, hashOf value))) := by
  rw [precedence, h]

lemma precedence_of_other (h : ∀ node, value.data ≠ .nodeInstance node) :
    precedence hashOf value = toLex (0, toLex (0, toLex (value.wallclock, hashOf value))) := by
  rw [precedence]
  split
  · rename_i node hnode
    exact absurd hnode (h node)
  · rfl

lemma beats_iff (hlabel : value.label = other.label) (hstart : SameStart value other) :
    beats hashOf value other = true ↔ precedence hashOf other < precedence hashOf value := by
  rcases instance_cases hlabel with ⟨node, node', hnode, hnode', horigin⟩ | ⟨hnot, hnot'⟩
  · rw [precedence_of_instance hashOf hnode, precedence_of_instance hashOf hnode', toLex_lt_iff,
      toLex_lt_iff, toLex_lt_iff, beats, CrdsValue.instanceOverrides, hnode]
    simp only [NodeInstance.overrides, hnode']
    by_cases htoken : node.token = node'.token
    · have htime := hstart node node' hnode hnode' horigin htoken
      rw [if_pos (.inl htoken), compare_wallclock_iff]
      simp [htoken, htime]
    · rw [if_neg (by simp [htoken, horigin])]
      rcases lt_trichotomy node.timestamp node'.timestamp with hlt | heq | hgt
      · rw [compare_lt_iff_lt.2 hlt]
        simp
        omega
      · rw [compare_eq_iff_eq.2 heq]
        simp [heq, Ne.symm htoken]
      · rw [compare_gt_iff_gt.2 hgt]
        simp [hgt]
  · rw [precedence_of_other hashOf hnot, precedence_of_other hashOf hnot', toLex_lt_iff, toLex_lt_iff,
      toLex_lt_iff, beats]
    have hnone : value.instanceOverrides other = none := by
      rw [CrdsValue.instanceOverrides]
      split
      · rename_i node hnode
        exact absurd hnode (hnot node)
      · rfl
    rw [hnone, compare_wallclock_iff]
    simp

lemma hash_eq_of_precedence_eq
    (h : precedence hashOf value = precedence hashOf other) : hashOf value = hashOf other := by
  have hlast : ∀ v : CrdsValue β,
      (ofLex (ofLex (ofLex (precedence hashOf v)).2).2).2 = hashOf v := by
    intro v
    rw [precedence]
    split <;> rfl
  rw [← hlast value, h, hlast other]

variable (label : CrdsValueLabel)

lemma winner_isChampion (hstart : ∀ v ∈ values, ∀ v' ∈ values, SameStart v v') :
    (winner hashOf label values = none ∧ values.filter (·.label = label) = []) ∨
      ∃ v, winner hashOf label values = some v ∧
        IsChampion (precedence hashOf) (values.filter (·.label = label)) v := by
  induction values using List.reverseRecOn with
  | nil => exact .inl ⟨rfl, rfl⟩
  | append_singleton values value ih =>
    have hwinner : winner hashOf label (values ++ [value]) =
        update hashOf label (winner hashOf label values) value := by
      rw [winner, foldl_append]
      rfl
    have hih := ih fun v hv v' hv' => hstart v (mem_append_left _ hv) v' (mem_append_left _ hv')
    rw [hwinner, filter_append]
    by_cases hlabel : value.label = label
    · subst hlabel
      have hsingle : [value].filter (·.label = value.label) = [value] := by simp
      rw [hsingle]
      right
      rcases hih with ⟨hnone, hnil⟩ | ⟨v, hv, hchampion⟩
      · rw [hnone, hnil, update_none]
        exact ⟨value, rfl, IsChampion.singleton _ _⟩
      · obtain ⟨hmem, hvlabel⟩ := mem_filter.1 hchampion.1
        have hbeats := beats_iff hashOf (of_decide_eq_true hvlabel).symm
          (hstart value (by simp) v (mem_append_left _ hmem))
        rw [hv, update_some]
        split_ifs with hb
        · exact ⟨value, rfl, hchampion.snoc_of_le (hbeats.1 hb).le⟩
        · exact ⟨v, rfl, hchampion.snoc_of_ge (not_lt.1 (mt hbeats.2 hb))⟩
    · have hnil : [value].filter (·.label = label) = [] := by simp [hlabel]
      rw [hnil, append_nil, update_of_ne hashOf _ hlabel]
      exact hih

lemma winner_perm {values' : List (CrdsValue β)} (hperm : values.Perm values')
    (hhash : ∀ v ∈ values, ∀ v' ∈ values, hashOf v = hashOf v' → v = v')
    (hstart : ∀ v ∈ values, ∀ v' ∈ values, SameStart v v') :
    winner hashOf label values = winner hashOf label values' := by
  have hstart' : ∀ v ∈ values', ∀ v' ∈ values', SameStart v v' :=
    fun v hv v' hv' => hstart v (hperm.mem_iff.2 hv) v' (hperm.mem_iff.2 hv')
  have hfilter := hperm.filter (·.label = label)
  rcases winner_isChampion hashOf label hstart with ⟨hnone, hnil⟩ | ⟨v, hv, hchampion⟩
  · rcases winner_isChampion hashOf label hstart' with ⟨hnone', -⟩ | ⟨v', -, hchampion'⟩
    · rw [hnone, hnone']
    · have hmem := hfilter.mem_iff.2 hchampion'.1
      rw [hnil] at hmem
      cases hmem
  · rcases winner_isChampion hashOf label hstart' with ⟨-, hnil'⟩ | ⟨v', hv', hchampion'⟩
    · have hmem := hfilter.mem_iff.1 hchampion.1
      rw [hnil'] at hmem
      cases hmem
    · have heq := hchampion.unique_of_injOn (fun a ha b hb hab =>
        hhash a (mem_of_mem_filter ha) b (mem_of_mem_filter hb)
          (hash_eq_of_precedence_eq hashOf hab)) (hchampion'.of_mem_iff fun y => hfilter.mem_iff)
      rw [hv, hv', heq]

end

/-- Two tables that got the same values in any two orders, at any times and on any routes, hold the
same value for every label, when hashes tell the values apart and instances of a node with the
same token have the same timestamp. -/
theorem insertRun_converges (hashOf : CrdsValue β → Hash) (insertions insertions' : List (Insertion β))
    (hperm : (insertions.map Prod.fst).Perm (insertions'.map Prod.fst))
    (hhash : ∀ v ∈ insertions.map Prod.fst, ∀ v' ∈ insertions.map Prod.fst,
      hashOf v = hashOf v' → v = v')
    (hstart : ∀ v ∈ insertions.map Prod.fst, ∀ v' ∈ insertions.map Prod.fst, SameStart v v') :
    ∃ crds crds', insertRun hashOf insertions = some crds ∧ insertRun hashOf insertions' = some crds' ∧
      ∀ label, (crds.table.get label).map VersionedCrdsValue.value =
        (crds'.table.get label).map VersionedCrdsValue.value := by
  obtain ⟨crds, heq, hget⟩ := insertRun_get hashOf insertions
  obtain ⟨crds', heq', hget'⟩ := insertRun_get hashOf insertions'
  refine ⟨crds, crds', heq, heq', fun label => ?_⟩
  rw [hget, hget', winner_perm hashOf label hperm hhash hstart]

/-- An instance of a node, inserted when it was made. -/
def instanceInsertion (timestamp token wallclock : Nat) : Insertion Unit :=
  (⟨0, .nodeInstance ⟨7, wallclock, timestamp, token⟩⟩, wallclock, .localMessage)

/-- The hashes of values with different wallclocks. -/
def wallclockHash (value : CrdsValue Unit) : Hash := value.wallclock

/-- A node is restarted, and its first instance is heard of again. -/
theorem restart_converges : ∃ crds crds',
    insertRun wallclockHash [instanceInsertion 1 8 1, instanceInsertion 1 8 6, instanceInsertion 5 3 5] =
      some crds ∧
    insertRun wallclockHash [instanceInsertion 1 8 1, instanceInsertion 5 3 5, instanceInsertion 1 8 6] =
      some crds' ∧
    ∀ label, (crds.table.get label).map VersionedCrdsValue.value =
      (crds'.table.get label).map VersionedCrdsValue.value := by
  apply insertRun_converges
  · decide
  · decide
  · intro v hv v' hv' node node' hnode hnode' _ htoken
    simp only [instanceInsertion, map_cons, map_nil, mem_cons, not_mem_nil, or_false] at hv hv'
    rcases hv with rfl | rfl | rfl <;> rcases hv' with rfl | rfl | rfl <;> cases hnode <;> cases hnode' <;>
      first | rfl | cases htoken

/-- Instances with one token and different timestamps: each of the three takes the place of the one
before it, in a circle, and so the last one inserted stays. -/
theorem instances_diverge :
    let first := instanceInsertion 1 1 10
    let second := instanceInsertion 2 2 0
    let third := instanceInsertion 3 1 5
    (∀ v ∈ [first.1, second.1, third.1], ∀ v' ∈ [first.1, second.1, third.1],
      wallclockHash v = wallclockHash v' → v = v') ∧
    ∃ crds crds', insertRun wallclockHash [first, second, third] = some crds ∧
      insertRun wallclockHash [second, third, first] = some crds' ∧
      (crds.table.get (.nodeInstance 7)).map VersionedCrdsValue.value = some third.1 ∧
      (crds'.table.get (.nodeInstance 7)).map VersionedCrdsValue.value = some first.1 ∧
      first.1 ≠ third.1 := by
  intro first second third
  obtain ⟨crds, heq, hget⟩ := insertRun_get wallclockHash [first, second, third]
  obtain ⟨crds', heq', hget'⟩ := insertRun_get wallclockHash [second, third, first]
  refine ⟨by decide, crds, crds', heq, heq', ?_, ?_, by decide⟩
  · rw [hget]
    decide
  · rw [hget']
    decide

end Nuah.Proofs
