import Nuah.Proofs.CrdsIndices

/-!
# The gossip table over whole runs

`Indexed` says that every index agrees with the table. Each call keeps it and does not panic.
-/

namespace Nuah.Proofs

open List hiding drop
open Crds ExceptLoops IndexMaps Option

open Std (TreeMap)
open IndexMaps (IndexMap IndexSet Tracks)
open OrderedMaps (getElem?_insert_eq getElem?_erase_eq)

variable {β : Type}

/-! ## What the branches on the kind of a value do -/

def contactVersion (entry : VersionedCrdsValue β) : Nat :=
  match entry.value.data with
  | .legacyContactInfo node => node.shredVersion
  | _ => 0

section Kinds

variable (crds : Crds β) (i size : Nat) (old value : VersionedCrdsValue β)

lemma trackKind_eq : crds.trackKind i value = { crds with
    nodes := if isContactInfo value then crds.nodes.insert i () else crds.nodes
    shredVersions := if isContactInfo value
      then crds.shredVersions.insert value.value.pubkey (contactVersion value) else crds.shredVersions
    votes := if isVote value then crds.votes.insert value.ordinal i else crds.votes
    epochSlots := if isEpochSlots value then crds.epochSlots.insert value.ordinal i else crds.epochSlots
    duplicateShreds := if isDuplicateShred value
      then crds.duplicateShreds.insert value.ordinal i else crds.duplicateShreds } := by
  unfold trackKind isContactInfo contactVersion isVote isEpochSlots isDuplicateShred
  cases value.value.data <;> rfl

lemma untrackKind_eq : crds.untrackKind i value = { crds with
    nodes := if isContactInfo value then crds.nodes.swapRemove i else crds.nodes
    votes := if isVote value then crds.votes.erase value.ordinal else crds.votes
    epochSlots := if isEpochSlots value then crds.epochSlots.erase value.ordinal else crds.epochSlots
    duplicateShreds := if isDuplicateShred value
      then crds.duplicateShreds.erase value.ordinal else crds.duplicateShreds } := by
  unfold untrackKind isContactInfo isVote isEpochSlots isDuplicateShred
  cases value.value.data <;> rfl

lemma moveKind_eq : crds.moveKind size i value = { crds with
    nodes := if isContactInfo value then (crds.nodes.swapRemove size).insert i () else crds.nodes
    votes := if isVote value then crds.votes.insert value.ordinal i else crds.votes
    epochSlots := if isEpochSlots value then crds.epochSlots.insert value.ordinal i else crds.epochSlots
    duplicateShreds := if isDuplicateShred value
      then crds.duplicateShreds.insert value.ordinal i else crds.duplicateShreds } := by
  unfold moveKind isContactInfo isVote isEpochSlots isDuplicateShred
  cases value.value.data <;> rfl

variable {crds i old value} in
lemma retrackKind_eq (h : isContactInfo value = isContactInfo old) :
    crds.retrackKind i old value = some { crds with
      shredVersions := if isContactInfo value
        then crds.shredVersions.insert value.value.pubkey (contactVersion value) else crds.shredVersions
      votes := if isVote value then (crds.votes.erase old.ordinal).insert value.ordinal i else crds.votes
      epochSlots := if isEpochSlots value
        then (crds.epochSlots.erase old.ordinal).insert value.ordinal i else crds.epochSlots
      duplicateShreds := if isDuplicateShred value
        then (crds.duplicateShreds.erase old.ordinal).insert value.ordinal i
        else crds.duplicateShreds } := by
  revert h
  unfold retrackKind isContactInfo contactVersion isVote isEpochSlots isDuplicateShred
  cases value.value.data <;> cases old.value.data <;> first | exact fun _ => rfl | exact nofun

end Kinds

/-! ## The invariant -/

structure Indexed (crds : Crds β) : Prop where
  labelled : ∀ p ∈ crds.table.entries, p.2.value.label = p.1
  ordinal_lt : ∀ entry ∈ crds.table.values, entry.ordinal < crds.cursor
  ordinals_nodup : (crds.table.values.map VersionedCrdsValue.ordinal).Nodup
  nodes : NodeTracks crds.table.values crds.nodes
  votes : OrdinalTracks isVote crds.table.values crds.votes
  epochSlots : OrdinalTracks isEpochSlots crds.table.values crds.epochSlots
  duplicateShreds : OrdinalTracks isDuplicateShred crds.table.values crds.duplicateShreds
  entries : OrdinalTracks (fun _ => true) crds.table.values crds.entries
  records : RecordTracks crds.table.values crds.records
  record_ne_nil : ∀ (pubkey : Pubkey) (record : IndexSet Nat), crds.records[pubkey]? = some record → record.keys ≠ []
  sized : Sized crds.shards
  shards : ShardTracks crds.table.values crds.shards
  shredVersions : ∀ pubkey, pubkey ∈ crds.shredVersions → ∃ i, InRecord crds.records pubkey i

lemma default_indexed : Indexed (Crds.default : Crds β) where
  labelled := by simp [Crds.default, IndexMap.empty]
  ordinal_lt := by simp [Crds.default, IndexMap.empty, IndexMap.values]
  ordinals_nodup := nodup_nil
  nodes := by simp [Tracks, Crds.default, IndexMap.empty, IndexMap.values, IndexMap.keys]
  votes := by simp [Tracks, Crds.default, IndexMap.empty, IndexMap.values]
  epochSlots := by simp [Tracks, Crds.default, IndexMap.empty, IndexMap.values]
  duplicateShreds := by simp [Tracks, Crds.default, IndexMap.empty, IndexMap.values]
  entries := by simp [Tracks, Crds.default, IndexMap.empty, IndexMap.values]
  records := by simp [Tracks, Crds.default, IndexMap.empty, IndexMap.values, InRecord]
  record_ne_nil := by simp [Crds.default]
  sized := ⟨rfl, length_replicate⟩
  shards := by
    intro key i
    simp only [Crds.default, IndexMap.empty, IndexMap.values, InShard, CrdsShards.new]
    simp [getElem?_replicate]
  shredVersions := by simp [Crds.default]

variable {crds crds' : Crds β} {value old : VersionedCrdsValue β} {i : Nat}

/-- Versions keep their ordinals and values, and new ones have new ordinals. -/
structure Follows (crds crds' : Crds β) : Prop where
  cursor : crds.cursor ≤ crds'.cursor
  values : ∀ e ∈ crds'.table.values, crds.cursor ≤ e.ordinal ∨
    ∃ old ∈ crds.table.values, old.ordinal = e.ordinal ∧ old.value = e.value

lemma Follows.of_subset (hcursor : crds'.cursor = crds.cursor)
    (hvalues : crds'.table.values ⊆ crds.table.values) : Follows crds crds' :=
  ⟨hcursor.ge, fun e he => .inr ⟨e, hvalues he, rfl, rfl⟩⟩

lemma Follows.refl (crds : Crds β) : Follows crds crds := .of_subset rfl (Subset.refl _)

lemma Follows.trans {crds'' : Crds β} (h : Follows crds crds') (h' : Follows crds' crds'') :
    Follows crds crds'' where
  cursor := h.cursor.trans h'.cursor
  values e he := by
    rcases h'.values e he with hnew | ⟨old, hold, hordinal, hvalue⟩
    · exact .inl (h.cursor.trans hnew)
    · rw [← hordinal, ← hvalue]
      exact h.values old hold

lemma follows_modifyIndex (hold : crds.table.values[i]? = some old)
    {f : VersionedCrdsValue β → VersionedCrdsValue β} (hordinal : (f old).ordinal = old.ordinal)
    (hvalue : (f old).value = old.value) :
    Follows crds { crds with table := crds.table.modifyIndex i f } where
  cursor := le_rfl
  values e he := by
    rw [IndexMap.values_modifyIndex hold] at he
    rcases mem_or_eq_of_mem_set he with he | rfl
    · exact .inr ⟨e, he, rfl, rfl⟩
    · exact .inr ⟨old, mem_of_getElem? hold, hordinal.symm, hvalue.symm⟩

/-! ## Insertion -/

lemma insert_ne_nil {s : IndexSet Nat} : (s.insert i ()).keys ≠ [] :=
  ne_nil_of_mem (IndexMap.mem_keys_insert.2 (.inl rfl))

lemma record_ne_nil_insert {records : TreeMap Pubkey (IndexSet Nat)} {k : Pubkey} {new : IndexSet Nat}
    (hnew : new.keys ≠ [])
    (hne : ∀ (pubkey : Pubkey) (record : IndexSet Nat), records[pubkey]? = some record →
      record.keys ≠ []) (pubkey : Pubkey) (record : IndexSet Nat)
    (hrecord : (records.insert k new)[pubkey]? = some record) : record.keys ≠ [] := by
  rw [getElem?_insert_eq] at hrecord
  split_ifs at hrecord
  · rw [← Option.some.inj hrecord]
    exact hnew
  · exact hne pubkey record hrecord

lemma mem_of_mem_ite {versions : TreeMap Pubkey Nat} {c : Bool} {k pubkey : Pubkey} {v : Nat}
    (h : pubkey ∈ if c then versions.insert k v else versions) : pubkey = k ∨ pubkey ∈ versions := by
  split_ifs at h
  · rcases TreeMap.mem_insert.1 h with heq | hmem
    · exact .inl (Std.LawfulEqOrd.eq_of_compare heq).symm
    · exact .inr hmem
  · exact .inr h

section

variable (h : Indexed crds)

include h

lemma Indexed.fresh (hordinal : value.ordinal = crds.cursor) :
    ∀ e ∈ crds.table.values, e.ordinal ≠ value.ordinal :=
  fun e he => hordinal ▸ (h.ordinal_lt e he).ne

lemma insertVacant_indexed (hvacant : crds.table.getIndexOf value.value.label = none)
    (hordinal : value.ordinal = crds.cursor) :
    ∃ crds', crds.insertVacant value = some crds' ∧ Indexed crds' ∧
      crds'.table = crds.table.insert value.value.label value := by
  have hvalues := IndexMap.values_insert_of_none hvacant (v := value)
  have hlen : crds.table.len = crds.table.values.length := IndexMap.length_values.symm
  have hfresh := h.fresh hordinal
  obtain ⟨shards', hshards, hsized, hin⟩ := h.sized.insert_new (a := value)
    (i := crds.table.values.length) fun key hkey => (h.shards.lt_length hkey).ne rfl
  have hpush := RecordTracks.push h.records (a := value)
  rw [insertVacant, hlen]
  simp only [hshards, bind_eq_bind, bind_some, trackKind_eq, consume]
  refine ⟨_, rfl, ?_, rfl⟩
  constructor <;> dsimp only
  case labelled =>
    rw [IndexMap.entries_insert_of_none hvacant]
    exact forall_mem_append.2 ⟨h.labelled, by simp⟩
  case ordinal_lt =>
    rw [hvalues]
    refine forall_mem_append.2 ⟨fun e he => ?_, forall_mem_singleton.2 ?_⟩
    · exact (h.ordinal_lt e he).trans_le (le_max_left _ _)
    · exact Nat.lt_of_lt_of_le (Nat.lt_succ_self _) (le_max_right _ _)
  case ordinals_nodup =>
    rw [hvalues, map_append]
    refine h.ordinals_nodup.append (nodup_singleton _) ?_
    simpa using fun e he => hfresh e he
  case nodes => exact hvalues ▸ h.nodes.push
  case votes => exact hvalues ▸ h.votes.push hfresh
  case epochSlots => exact hvalues ▸ h.epochSlots.push hfresh
  case duplicateShreds => exact hvalues ▸ h.duplicateShreds.push hfresh
  case entries => exact hvalues ▸ h.entries.push hfresh
  case records => exact hvalues ▸ hpush
  case record_ne_nil => exact record_ne_nil_insert insert_ne_nil h.record_ne_nil
  case sized => exact hsized
  case shards => exact hvalues ▸ Tracks.push h.shards hin
  case shredVersions =>
    intro pubkey hmem
    rcases mem_of_mem_ite hmem with rfl | hmem
    · exact ⟨_, (hpush _ _).2 ⟨value, getElem?_concat_length, rfl⟩⟩
    · obtain ⟨i, hi⟩ := h.shredVersions pubkey hmem
      obtain ⟨e, he, hkey⟩ := (h.records pubkey i).1 hi
      exact ⟨i, (hpush pubkey i).2 ⟨e, getElem?_append_left (h.records.lt_length hi) ▸ he, hkey⟩⟩

lemma insertOver_indexed (hindex : crds.table.getIndexOf value.value.label = some i)
    (hold : crds.table.values[i]? = some old) (hlabel : value.value.label = old.value.label)
    (hordinal : value.ordinal = crds.cursor) (now : Nat) :
    ∃ crds', crds.insertOver i old value now = some crds' ∧ Indexed crds' ∧
      crds'.table = crds.table.insert value.value.label value := by
  obtain ⟨hcontact, hvote, hslots, hshred, hpubkey⟩ := same_kind hlabel
  have hvalues : (crds.table.insert value.value.label value).values = crds.table.values.set i value := by
    rw [IndexMap.insert_of_some hindex, IndexMap.values_modifyIndex hold]
  have hfresh := h.fresh hordinal
  obtain ⟨shards₁, hremove, hsized₁, hin₁⟩ :=
    h.sized.remove_only (i := i) (b := old) fun key => (h.shards.iff_of_getElem? hold key).1
  obtain ⟨shards₂, hinsert, hsized₂, hin₂⟩ :=
    hsized₁.insert_new (i := i) (a := value) fun key hkey => ((hin₁ key i).1 hkey).2 rfl
  rw [insertOver]
  simp only [hremove, hinsert, bind_eq_bind, bind_some, retrackKind_eq hcontact, consume, hpubkey]
  refine ⟨_, rfl, ?_, rfl⟩
  constructor <;> dsimp only
  case labelled =>
    intro p hp
    rcases IndexMap.mem_insert.1 hp with rfl | ⟨hp, -⟩
    · rfl
    · exact h.labelled p hp
  case ordinal_lt =>
    rw [hvalues]
    intro e he
    rcases mem_or_eq_of_mem_set he with he | rfl
    · exact (h.ordinal_lt e he).trans_le (le_max_left _ _)
    · exact Nat.lt_of_lt_of_le (Nat.lt_succ_self _) (le_max_right _ _)
  case ordinals_nodup =>
    rw [hvalues, map_set]
    refine h.ordinals_nodup.set ?_
    simpa using fun e he => hfresh e he
  case nodes => exact hvalues ▸ h.nodes.replace_same hold fun _ => by rw [hcontact]
  case votes => exact hvalues ▸ h.votes.replace hold hfresh hvote
  case epochSlots => exact hvalues ▸ h.epochSlots.replace hold hfresh hslots
  case duplicateShreds => exact hvalues ▸ h.duplicateShreds.replace hold hfresh hshred
  case entries => exact hvalues ▸ h.entries.replace hold hfresh rfl
  case records => exact hvalues ▸ h.records.replace_same hold fun _ => by rw [hpubkey]
  case record_ne_nil => exact h.record_ne_nil
  case sized => exact hsized₂
  case shards =>
    refine hvalues ▸ Tracks.replace h.shards hold fun key j => ?_
    rw [hin₂, hin₁]
  case shredVersions =>
    intro pubkey hmem
    rcases mem_of_mem_ite hmem with rfl | hmem
    · exact ⟨i, (h.records _ i).2 ⟨old, hold, rfl⟩⟩
    · exact h.shredVersions pubkey hmem

lemma Indexed.modifyIndex (hold : crds.table.values[i]? = some old)
    {f : VersionedCrdsValue β → VersionedCrdsValue β} (hordinal : (f old).ordinal = old.ordinal)
    (hvalue : (f old).value = old.value) (hhash : (f old).valueHash = old.valueHash) :
    Indexed { crds with table := crds.table.modifyIndex i f } := by
  have hvalues := IndexMap.values_modifyIndex hold (f := f)
  obtain ⟨hcontact, hvote, hslots, hshred, hpubkey⟩ :=
    same_kind (congrArg CrdsValue.label hvalue)
  have hordinals : ((crds.table.modifyIndex i f).values.map VersionedCrdsValue.ordinal) =
      crds.table.values.map VersionedCrdsValue.ordinal := by
    obtain ⟨hlt, rfl⟩ := List.getElem?_eq_some_iff.1 hold
    rw [hvalues, map_set, hordinal, ← getElem_map VersionedCrdsValue.ordinal, set_getElem_self]
    rwa [List.length_map]
  constructor <;> dsimp only
  case labelled =>
    intro p hp
    obtain ⟨j, hj⟩ := mem_iff_getElem?.1 hp
    rw [IndexMap.modifyIndex, getElem?_modify] at hj
    obtain ⟨q, hq, rfl⟩ := map_eq_some_iff.1 hj
    have hlabel := h.labelled q (mem_of_getElem? hq)
    split_ifs with hij
    · rw [IndexMap.values_getElem?, hij, hq] at hold
      cases hold
      exact hvalue ▸ hlabel
    · exact hlabel
  case ordinal_lt =>
    intro e he
    have hmem : e.ordinal ∈ crds.table.values.map VersionedCrdsValue.ordinal :=
      hordinals ▸ mem_map_of_mem he
    obtain ⟨e', he', heq⟩ := mem_map.1 hmem
    exact heq ▸ h.ordinal_lt e' he'
  case ordinals_nodup => exact hordinals ▸ h.ordinals_nodup
  case nodes => exact hvalues ▸ h.nodes.replace_same hold fun _ => by rw [hcontact]
  case votes => exact hvalues ▸ h.votes.replace_same hold fun _ => by rw [hvote, hordinal]
  case epochSlots => exact hvalues ▸ h.epochSlots.replace_same hold fun _ => by rw [hslots, hordinal]
  case duplicateShreds =>
    exact hvalues ▸ h.duplicateShreds.replace_same hold fun _ => by rw [hshred, hordinal]
  case entries => exact hvalues ▸ h.entries.replace_same hold fun _ => by rw [hordinal]
  case records => exact hvalues ▸ h.records.replace_same hold fun _ => by rw [hpubkey]
  case record_ne_nil => exact h.record_ne_nil
  case sized => exact h.sized
  case shards => exact hvalues ▸ h.shards.replace_same hold fun _ => by rw [shardKey, shardKey, hhash]
  case shredVersions => exact h.shredVersions

end

variable (hashOf : CrdsValue β → Hash)

lemma overrides_ne_none {value : CrdsValue β}
    (h : value.label = old.value.label) : overrides hashOf value old ≠ none := by
  rw [overrides, if_pos h]
  split
  · exact some_ne_none _
  · split <;> exact some_ne_none _

lemma Indexed.exists_old (h : Indexed crds) {label : CrdsValueLabel}
    (hindex : crds.table.getIndexOf label = some i) :
    ∃ old, crds.table.values[i]? = some old ∧ old.value.label = label := by
  obtain ⟨old, hold⟩ := IndexMap.getIndexOf_eq_some_iff.1 hindex
  refine ⟨old, ?_, h.labelled _ (mem_of_getElem? hold)⟩
  rw [IndexMap.values_getElem?, hold]
  rfl

lemma insertFail_indexed (h : Indexed crds) (hold : crds.table.values[i]? = some old)
    (value : VersionedCrdsValue β) (now : Nat) (route : GossipRoute) :
    Indexed (crds.insertFail i old value now route).1 ∧
      Follows crds (crds.insertFail i old value now route).1 := by
  unfold insertFail
  split_ifs
  · exact ⟨{ h with }, .of_subset rfl (Subset.refl _)⟩
  · split
    · exact ⟨h.modifyIndex hold rfl rfl rfl, follows_modifyIndex hold rfl rfl⟩
    · exact ⟨h, Follows.refl crds⟩

/-- The version of a successful insertion is the one with the next ordinal. -/
structure Inserted (crds crds' : Crds β) (value : CrdsValue β) : Prop where
  cursor_lt : crds.cursor < crds'.cursor
  value_eq : ∀ e ∈ crds'.table.values, e.ordinal = crds.cursor → e.value = value

lemma Indexed.inserted (h : Indexed crds) (h' : Indexed crds') (hordinal : value.ordinal = crds.cursor)
    (htable : crds'.table = crds.table.insert value.value.label value) :
    Follows crds crds' ∧ Inserted crds crds' value.value := by
  have hmem (e) (he : e ∈ crds'.table.values) : e = value ∨ e ∈ crds.table.values := by
    rw [htable] at he
    obtain ⟨p, hp, rfl⟩ := mem_map.1 he
    rcases IndexMap.mem_insert.1 hp with rfl | ⟨hp, -⟩
    · exact .inl rfl
    · exact .inr (mem_map_of_mem hp)
  have hlt : crds.cursor < crds'.cursor := by
    rw [← hordinal]
    refine h'.ordinal_lt value ?_
    rw [htable]
    exact mem_map_of_mem (IndexMap.mem_insert.2 (.inl rfl))
  refine ⟨⟨hlt.le, fun e he => ?_⟩, hlt, fun e he heq => ?_⟩
  · rcases hmem e he with rfl | he
    · exact .inl hordinal.ge
    · exact .inr ⟨e, he, rfl, rfl⟩
  · rcases hmem e he with rfl | he
    · rfl
    · exact absurd heq (h.ordinal_lt e he).ne

lemma insert_indexed (h : Indexed crds) (value : CrdsValue β) (now : Nat) (route : GossipRoute) :
    ∃ crds' result, crds.insert hashOf value now route = some (crds', result) ∧ Indexed crds' ∧
      Follows crds crds' ∧ (result = .ok () → Inserted crds crds' value) := by
  unfold Crds.insert
  dsimp only
  split
  · rename_i hvacant
    obtain ⟨crds', heq, h', htable⟩ := insertVacant_indexed h hvacant rfl
    obtain ⟨hfollows, hnew⟩ := h.inserted h' rfl htable
    exact ⟨crds', .ok (), by rw [heq]; rfl, h', hfollows, fun _ => hnew⟩
  · rename_i i hindex
    obtain ⟨old, hold, hlabel⟩ := h.exists_old hindex
    obtain ⟨out, hout⟩ := ne_none_iff_exists'.1
      (overrides_ne_none hashOf hlabel.symm)
    rw [hold, bind_eq_bind, bind_some, bind_eq_bind, hout, bind_some]
    cases out with
    | true =>
      obtain ⟨crds', heq, h', htable⟩ := insertOver_indexed h hindex hold hlabel.symm rfl now
      obtain ⟨hfollows, hnew⟩ := h.inserted h' rfl htable
      exact ⟨crds', .ok (), by simp only [heq]; rfl, h', hfollows, fun _ => hnew⟩
    | false =>
      obtain ⟨h', hfollows⟩ := insertFail_indexed h hold _ now route
      exact ⟨_, _, rfl, h', hfollows, nofun⟩

/-! ## Removal -/

lemma removeRecord_spec {pubkey : Pubkey} (hin : InRecord crds.records pubkey i)
    (honly : ∀ pubkey', InRecord crds.records pubkey' i → pubkey' = pubkey)
    (hne : ∀ (pubkey : Pubkey) (record : IndexSet Nat), crds.records[pubkey]? = some record →
      record.keys ≠ [])
    (hversions : ∀ pubkey, pubkey ∈ crds.shredVersions → ∃ i, InRecord crds.records pubkey i) :
    ∃ records shredVersions,
      (∀ crds' : Crds β, crds'.records = crds.records → crds'.shredVersions = crds.shredVersions →
        crds'.removeRecord pubkey i =
          some { crds' with records := records, shredVersions := shredVersions }) ∧
      (∀ pubkey' j, InRecord records pubkey' j ↔ InRecord crds.records pubkey' j ∧ j ≠ i) ∧
      (∀ (pubkey : Pubkey) (record : IndexSet Nat), records[pubkey]? = some record → record.keys ≠ []) ∧
      ∀ pubkey, pubkey ∈ shredVersions → ∃ i, InRecord records pubkey i := by
  obtain ⟨record, hrecord, hi⟩ := hin
  have hkeys : ∀ j, j ∈ (record.swapRemove i).keys ↔ j ∈ record.keys ∧ j ≠ i :=
    fun j => IndexMap.mem_keys_swapRemove
  -- every other pubkey keeps its record, so only this one's shred version may lose its records
  have hothers : ∀ records', (∀ pubkey' j, InRecord records' pubkey' j ↔
      InRecord crds.records pubkey' j ∧ j ≠ i) → ∀ pubkey', pubkey' ≠ pubkey →
      pubkey' ∈ crds.shredVersions → ∃ j, InRecord records' pubkey' j := by
    intro records' hrecords pubkey' hpubkey hmem
    obtain ⟨j, hj⟩ := hversions pubkey' hmem
    refine ⟨j, (hrecords pubkey' j).2 ⟨hj, ?_⟩⟩
    rintro rfl
    exact hpubkey (honly pubkey' hj)
  have hremove : ∀ crds' : Crds β, crds'.records = crds.records →
      crds'.shredVersions = crds.shredVersions → crds'.removeRecord pubkey i =
        if (record.swapRemove i).len = 0 then
          some { crds' with
            records := crds.records.erase pubkey
            shredVersions := crds.shredVersions.erase pubkey }
        else some { crds' with
            records := crds.records.insert pubkey (record.swapRemove i)
            shredVersions := crds.shredVersions } := by
    intro crds' hrecords hversions'
    rw [removeRecord, hrecords, hrecord, ← hversions']
    rfl
  by_cases hempty : (record.swapRemove i).len = 0
  · have hnil : (record.swapRemove i).keys = [] := by
      rw [IndexMap.keys, length_eq_zero_iff.1 hempty, map_nil]
    have hrecords := inRecord_erased (crds.records.erase pubkey) hrecord honly (by
      intro pubkey' j
      rw [inRecord_erase]
      split_ifs with hp
      · simp [hp, ← hkeys, hnil]
      · simp [hp])
    refine ⟨crds.records.erase pubkey, crds.shredVersions.erase pubkey,
      fun crds' h₁ h₂ => (hremove crds' h₁ h₂).trans (if_pos hempty), hrecords, ?_, ?_⟩
    · intro pubkey' record' hrecord'
      rw [getElem?_erase_eq] at hrecord'
      split_ifs at hrecord'
      exact hne pubkey' record' hrecord'
    · intro pubkey' hmem
      obtain ⟨hp, hmem⟩ := TreeMap.mem_erase.1 hmem
      refine hothers _ hrecords pubkey' ?_ hmem
      rintro rfl
      exact hp Std.ReflCmp.compare_self
  · have hcons : (record.swapRemove i).keys ≠ [] := by
      intro hnil
      apply hempty
      rw [IndexMap.len, ← length_map Prod.fst]
      exact length_eq_zero_iff.2 hnil
    have hrecords := inRecord_erased (crds.records.insert pubkey (record.swapRemove i))
      hrecord honly (by
        intro pubkey' j
        rw [inRecord_insert, hkeys])
    refine ⟨crds.records.insert pubkey (record.swapRemove i), crds.shredVersions,
      fun crds' h₁ h₂ => (hremove crds' h₁ h₂).trans (if_neg hempty), hrecords,
      record_ne_nil_insert hcons hne, ?_⟩
    intro pubkey' hmem
    by_cases hp : pubkey' = pubkey
    · obtain ⟨j, hj⟩ := exists_mem_of_ne_nil _ hcons
      refine ⟨j, inRecord_insert.2 ?_⟩
      rwa [if_pos hp]
    · exact hothers _ hrecords pubkey' hp hmem

/-- The table after an entry was removed, before the index entries of the last one are renamed: `l`
are the values before, and the indices still have their positions, except for the removed one. -/
structure Vacated (l : List (VersionedCrdsValue β)) (i : Nat) (crds : Crds β) : Prop where
  labelled : ∀ p ∈ crds.table.entries, p.2.value.label = p.1
  ordinal_lt : ∀ entry ∈ crds.table.values, entry.ordinal < crds.cursor
  ordinals_nodup : (crds.table.values.map VersionedCrdsValue.ordinal).Nodup
  values_eq : crds.table.values = swapRemove l i
  nodes : NodeTracksBut l i crds.nodes
  votes : OrdinalTracksBut isVote l i crds.votes
  epochSlots : OrdinalTracksBut isEpochSlots l i crds.epochSlots
  duplicateShreds : OrdinalTracksBut isDuplicateShred l i crds.duplicateShreds
  entries : OrdinalTracksBut (fun _ => true) l i crds.entries
  records : RecordTracksBut l i crds.records
  record_ne_nil : ∀ (pubkey : Pubkey) (record : IndexSet Nat), crds.records[pubkey]? = some record →
    record.keys ≠ []
  sized : Sized crds.shards
  shards : ShardTracksBut l i crds.shards
  shredVersions : ∀ pubkey, pubkey ∈ crds.shredVersions → ∃ i, InRecord crds.records pubkey i

variable {l : List (VersionedCrdsValue β)}

lemma Vacated.indexed_of_last (h : Vacated l i crds) (hlast : i + 1 = l.length) : Indexed crds where
  labelled := h.labelled
  ordinal_lt := h.ordinal_lt
  ordinals_nodup := h.ordinals_nodup
  nodes := h.values_eq ▸ h.nodes.swapRemove_last hlast
  votes := h.values_eq ▸ h.votes.swapRemove_last hlast
  epochSlots := h.values_eq ▸ h.epochSlots.swapRemove_last hlast
  duplicateShreds := h.values_eq ▸ h.duplicateShreds.swapRemove_last hlast
  entries := h.values_eq ▸ h.entries.swapRemove_last hlast
  records := h.values_eq ▸ h.records.swapRemove_last hlast
  record_ne_nil := h.record_ne_nil
  sized := h.sized
  shards := h.values_eq ▸ h.shards.swapRemove_last hlast
  shredVersions := h.shredVersions

lemma Vacated.moveLast (h : Vacated l i crds) (hmid : i < l.length - 1) :
    ∃ crds', crds.moveLast (l.length - 1) i = some crds' ∧ Indexed crds' ∧
      crds'.cursor = crds.cursor ∧ crds'.table = crds.table := by
  have hne : l.length - 1 ≠ i := hmid.ne'
  obtain ⟨a, ha⟩ : ∃ a, l[l.length - 1]? = some a :=
    ⟨l[l.length - 1], getElem?_eq_getElem (by omega)⟩
  have hget : crds.table.values[i]? = some a := by
    rw [h.values_eq, getElem?_swapRemove, if_pos (by omega), if_pos rfl, ha]
  have hshard := h.shards.iff_of_getElem? hne ha
  have hrecord := h.records.iff_of_getElem? hne ha
  obtain ⟨shards₁, hremove, hsized₁, hin₁⟩ :=
    h.sized.remove_only (i := l.length - 1) (b := a) fun key => (hshard key).1
  obtain ⟨shards₂, hinsert, hsized₂, hin₂⟩ := hsized₁.insert_new (i := i) (a := a) fun key hkey =>
    ((h.shards key i).1 ((hin₁ key i).1 hkey).1).1 rfl
  obtain ⟨record, hget', -⟩ := (hrecord a.value.pubkey).2 rfl
  have hmoved := inRecord_moved (i := i) hget' hrecord
  rw [Crds.moveLast]
  simp only [hget, hremove, hinsert, moveKind_eq, hget', bind_eq_bind, bind_some]
  refine ⟨_, rfl, ?_, rfl, rfl⟩
  constructor <;> dsimp only
  case labelled => exact h.labelled
  case ordinal_lt => exact h.ordinal_lt
  case ordinals_nodup => exact h.ordinals_nodup
  case nodes => exact h.values_eq ▸ h.nodes.moved hmid ha
  case votes => exact h.values_eq ▸ h.votes.moved hmid ha
  case epochSlots => exact h.values_eq ▸ h.epochSlots.moved hmid ha
  case duplicateShreds => exact h.values_eq ▸ h.duplicateShreds.moved hmid ha
  case entries => exact h.values_eq ▸ h.entries.moved hmid ha
  case records => exact h.values_eq ▸ h.records.swapRemove_move hmid hmoved
  case record_ne_nil => exact record_ne_nil_insert insert_ne_nil h.record_ne_nil
  case sized => exact hsized₂
  case shards =>
    refine h.values_eq ▸ h.shards.swapRemove_move hmid fun key j => ?_
    rw [hin₂, hin₁, hshard]
  case shredVersions =>
    intro pubkey hmem
    obtain ⟨j, hj⟩ := h.shredVersions pubkey hmem
    by_cases hlast : j = l.length - 1
    · exact ⟨i, (hmoved pubkey i).2 (.inr ⟨rfl, hlast ▸ hj⟩)⟩
    · exact ⟨j, (hmoved pubkey j).2 (.inl ⟨hj, hlast⟩)⟩

lemma vacate_spec (h : Indexed crds) {b : VersionedCrdsValue β} (hb : crds.table.values[i]? = some b)
    (now : Nat) : ∃ crds', crds.vacate i b (crds.table.swapRemoveIndex i) now = some crds' ∧
      crds'.cursor = crds.cursor ∧ Vacated crds.table.values i crds' := by
  have hi : i < crds.table.values.length := (List.getElem?_eq_some_iff.1 hb).1
  have hlt : i < crds.table.len := hi.trans_eq IndexMap.length_values
  have hvalues := IndexMap.values_swapRemoveIndex hlt
  have hperm := swapRemove_perm hi
  obtain ⟨shards₁, hremove, hsized₁, hshards⟩ :=
    h.sized.remove_only (i := i) (b := b) fun key => (h.shards.iff_of_getElem? hb key).1
  rw [vacate]
  simp only [hremove, bind_eq_bind, bind_some, untrackKind_eq]
  obtain ⟨records, versions, hremoveRecord, hrecords, hnenil, hversions⟩ := removeRecord_spec
    ((h.records.iff_of_getElem? hb b.value.pubkey).2 rfl)
    (fun pubkey' hin => ((h.records.iff_of_getElem? hb pubkey').1 hin).symm)
    h.record_ne_nil h.shredVersions
  refine ⟨_, hremoveRecord _ rfl rfl, rfl, ?_⟩
  constructor <;> dsimp only
  case labelled =>
    intro p hp
    rw [IndexMap.entries_swapRemoveIndex hlt] at hp
    exact h.labelled p (mem_of_mem_eraseIdx ((swapRemove_perm hlt).mem_iff.1 hp))
  case ordinal_lt =>
    rw [hvalues]
    exact fun e he => h.ordinal_lt e (mem_of_mem_eraseIdx (hperm.mem_iff.1 he))
  case ordinals_nodup =>
    rw [hvalues, (hperm.map _).nodup_iff]
    exact h.ordinals_nodup.sublist ((eraseIdx_sublist _ _).map _)
  case values_eq => exact hvalues
  case nodes => exact h.nodes.erased hb
  case votes => exact h.votes.erased hb
  case epochSlots => exact h.epochSlots.erased hb
  case duplicateShreds => exact h.duplicateShreds.erased hb
  case entries => exact h.entries.erased hb
  case records => exact Tracks.forget h.records hrecords
  case record_ne_nil => exact hnenil
  case sized => exact hsized₁
  case shards => exact Tracks.forget h.shards hshards
  case shredVersions => exact hversions

lemma remove_indexed (h : Indexed crds) (key : CrdsValueLabel) (now : Nat) :
    ∃ crds', crds.remove key now = some crds' ∧ Indexed crds' ∧ Follows crds crds' := by
  rw [remove, IndexMap.swapRemoveFull]
  cases hindex : crds.table.getIndexOf key with
  | none => exact ⟨crds, rfl, h, Follows.refl crds⟩
  | some i =>
    obtain ⟨b, hb, -⟩ := h.exists_old hindex
    have hi : i < crds.table.values.length := (List.getElem?_eq_some_iff.1 hb).1
    obtain ⟨crds₁, hvacate, hcursor, hvacated⟩ := vacate_spec h hb now
    have hlen : crds₁.table.len = crds.table.values.length - 1 := by
      rw [← IndexMap.length_values, hvacated.values_eq, length_swapRemove]
    have hsub : crds₁.table.values ⊆ crds.table.values := by
      rw [hvacated.values_eq]
      exact fun e he => mem_of_mem_eraseIdx ((swapRemove_perm hi).mem_iff.1 he)
    simp only [hb, bind_eq_bind, bind_some, hvacate, hlen]
    by_cases hmid : i < crds.table.values.length - 1
    · rw [if_pos hmid]
      obtain ⟨crds', hmove, h', hcursor', htable⟩ := hvacated.moveLast hmid
      exact ⟨crds', hmove, h', .of_subset (hcursor'.trans hcursor) (htable ▸ hsub)⟩
    · rw [if_neg hmid]
      exact ⟨crds₁, rfl, hvacated.indexed_of_last (by omega), .of_subset hcursor hsub⟩

lemma mem_records_of_lowestStaked {order : KeyOrder} {size : Nat} {keep : List Pubkey}
    {stakes : TreeMap Pubkey Nat} {k : Pubkey}
    (hk : k ∈ crds.lowestStaked order size keep stakes) : k ∈ crds.records := by
  obtain ⟨p, hp, rfl⟩ := mem_map.1 (mem_of_mem_filter hk)
  have hp' : p ∈ (order.iterate crds.records.keys).map fun k => ((stakes[k]?).getD 0, k) := by
    have hmem := mem_of_mem_take hp
    split_ifs at hmem
    · exact (order.selectNth_perm _ _).mem_iff.1 hmem
    · exact hmem
  obtain ⟨k, hk', rfl⟩ := mem_map.1 hp'
  exact TreeMap.mem_keys.1 ((order.iterate_perm _).mem_iff.1 hk')

lemma drop_indexed (h : Indexed crds) (order : KeyOrder) (size : Nat) (keep : List Pubkey)
    (stakes : TreeMap Pubkey Nat) (now : Nat) :
    ∃ crds' result, crds.drop order size keep stakes now = some (crds', result) ∧ Indexed crds' ∧
      Follows crds crds' := by
  unfold drop
  split_ifs
  · exact ⟨crds, _, rfl, h, Follows.refl crds⟩
  · obtain ⟨indices, hindices, hmem⟩ := exists_mapM_eq_some
      (f := fun k => (crds.records[k]?).map IndexMap.keys)
      (l := crds.lowestStaked order size keep stakes) fun k hk => by
        have hin := mem_records_of_lowestStaked hk
        rw [TreeMap.mem_iff_isSome_getElem?, isSome_iff_exists] at hin
        obtain ⟨record, hrecord⟩ := hin
        simp [hrecord]
    obtain ⟨keys, hkeys, -⟩ := exists_mapM_eq_some
      (f := fun i => (crds.table.getIndex i).map Prod.fst) (l := indices.flatten) fun i hi => by
        obtain ⟨positions, hpositions, hi⟩ := mem_flatten.1 hi
        obtain ⟨k, -, hk⟩ := (hmem positions).1 hpositions
        obtain ⟨record, hrecord, rfl⟩ := map_eq_some_iff.1 hk
        have hlt : i < crds.table.len := by
          rw [← IndexMap.length_values]
          exact h.records.lt_length ⟨record, hrecord, hi⟩
        simp [IndexMap.getIndex, getElem?_eq_getElem hlt]
    obtain ⟨crds', hrun, h'⟩ := foldlM_invariant (fun crds' => Indexed crds' ∧ Follows crds crds')
      (f := fun crds key => crds.remove key now) (l := keys) (fun key _ s hs => by
        obtain ⟨s', heq, hs', hfollows⟩ := remove_indexed hs.1 key now
        exact ⟨s', heq, hs', hs.2.trans hfollows⟩) ⟨h, Follows.refl crds⟩
    exact ⟨crds', .ok keys.length, by rw [hindices]; simp [hkeys, hrun], h'⟩

lemma trim_indexed (h : Indexed crds) (order : KeyOrder) (cap : Nat) (keep : List Pubkey)
    (stakes : TreeMap Pubkey Nat) (now : Nat) :
    ∃ crds' result, crds.trim order cap keep stakes now = some (crds', result) ∧ Indexed crds' ∧
      Follows crds crds' := by
  unfold trim
  split_ifs
  · exact drop_indexed h order _ keep stakes now
  · exact ⟨crds, _, rfl, h, Follows.refl crds⟩

/-! ## Timestamps -/

lemma updateTimestamp_eq (now : Nat) (entry : VersionedCrdsValue β) :
    (updateTimestamp now entry).ordinal = entry.ordinal ∧
      (updateTimestamp now entry).value = entry.value ∧
      (updateTimestamp now entry).valueHash = entry.valueHash := by
  unfold updateTimestamp
  split_ifs <;> simp

lemma Indexed.updateTimestamp (h : Indexed crds) (hi : i < crds.table.len) (now : Nat) :
    Indexed { crds with table := crds.table.modifyIndex i (updateTimestamp now) } ∧
      Follows crds { crds with table := crds.table.modifyIndex i (updateTimestamp now) } := by
  obtain ⟨old, hold⟩ : ∃ old, crds.table.values[i]? = some old :=
    ⟨_, getElem?_eq_getElem (by rwa [IndexMap.length_values])⟩
  obtain ⟨hordinal, hvalue, hhash⟩ := updateTimestamp_eq now old
  exact ⟨h.modifyIndex hold hordinal hvalue hhash, follows_modifyIndex hold hordinal hvalue⟩

lemma updateRecordTimestamp_indexed (h : Indexed crds) (pubkey : Pubkey) (now : Nat) :
    ∃ crds', crds.updateRecordTimestamp pubkey now = some crds' ∧ Indexed crds' ∧
      Follows crds crds' := by
  unfold updateRecordTimestamp
  split
  · rename_i origin hindex
    exact ⟨_, rfl, h.updateTimestamp (IndexMap.lt_len_of_getIndexOf hindex) now⟩
  · have hlt : ∀ index ∈ ((crds.records[pubkey]?).getD .empty).keys, index < crds.table.len := by
      intro index hmem
      cases hrecord : crds.records[pubkey]? with
      | none =>
        rw [hrecord] at hmem
        cases hmem
      | some record =>
        rw [hrecord] at hmem
        rw [← IndexMap.length_values]
        exact h.records.lt_length ⟨record, hrecord, hmem⟩
    have hloop := foldlM_invariant
      (fun table => (Indexed { crds with table := table } ∧ Follows crds { crds with table := table }) ∧
        table.len = crds.table.len)
      (f := fun (table : IndexMap CrdsValueLabel (VersionedCrdsValue β)) index =>
        if index < table.len then some (table.modifyIndex index (updateTimestamp now)) else none)
      (l := ((crds.records[pubkey]?).getD .empty).keys) (s := crds.table) (by
        intro index hmem table hs
        have hindex : index < table.len := (hlt index hmem).trans_eq hs.2.symm
        obtain ⟨hs', hfollows⟩ := hs.1.1.updateTimestamp hindex now
        refine ⟨_, if_pos hindex, ⟨hs', hs.1.2.trans hfollows⟩, ?_⟩
        rw [← hs.2]
        exact length_modify _ _ _) ⟨⟨h, Follows.refl crds⟩, rfl⟩
    obtain ⟨table, hrun, h', -⟩ := hloop
    refine ⟨_, ?_, h'⟩
    dsimp only
    rw [hrun]
    rfl

/-! ## Runs -/

/-- A call, with the order in which hash maps list their keys. -/
inductive CrdsCall (β : Type) where
  | insert (value : CrdsValue β) (now : Nat) (route : GossipRoute)
  | remove (key : CrdsValueLabel) (now : Nat)
  | trim (order : KeyOrder) (cap : Nat) (keep : List Pubkey) (stakes : TreeMap Pubkey Nat) (now : Nat)
  | updateRecordTimestamp (pubkey : Pubkey) (now : Nat)
  | trimPurged (timestamp : Nat)

def CrdsCall.exec (hashOf : CrdsValue β → Hash) (crds : Crds β) : CrdsCall β → Option (Crds β)
  | insert value now route => (crds.insert hashOf value now route).map Prod.fst
  | remove key now => crds.remove key now
  | trim order cap keep stakes now => (crds.trim order cap keep stakes now).map Prod.fst
  | updateRecordTimestamp pubkey now => crds.updateRecordTimestamp pubkey now
  | trimPurged timestamp => some (crds.trimPurged timestamp)

/-- The calls one after the other, from `Crds::default`. -/
def crdsRun (hashOf : CrdsValue β → Hash) (calls : List (CrdsCall β)) : Option (Crds β) :=
  calls.foldlM (CrdsCall.exec hashOf) default

lemma CrdsCall.exec_indexed (h : Indexed crds) (call : CrdsCall β) :
    ∃ crds', call.exec hashOf crds = some crds' ∧ Indexed crds' ∧ Follows crds crds' := by
  cases call with
  | insert value now route =>
    obtain ⟨crds', result, heq, h', hfollows, -⟩ := insert_indexed hashOf h value now route
    exact ⟨crds', by rw [exec, heq]; rfl, h', hfollows⟩
  | remove key now => exact remove_indexed h key now
  | trim order cap keep stakes now =>
    obtain ⟨crds', result, heq, h'⟩ := trim_indexed h order cap keep stakes now
    exact ⟨crds', by rw [exec, heq]; rfl, h'⟩
  | updateRecordTimestamp pubkey now => exact updateRecordTimestamp_indexed h pubkey now
  | trimPurged timestamp => exact ⟨_, rfl, { h with }, .of_subset rfl (Subset.refl _)⟩

end Nuah.Proofs
