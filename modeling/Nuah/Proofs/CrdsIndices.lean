import Nuah.Crds
import Nuah.Lib.OrderedMaps

/-!
# Indices of the gossip table

Every index of the table is a relation between keys and positions, and follows the table through
insertions, replacements and removals, in which the last position is renamed.
-/

namespace Nuah.Proofs

open List

open Std (TreeMap)
open IndexMaps (IndexMap IndexSet Tracks TracksBut)
open OrderedMaps (getElem?_insert_eq getElem?_erase_eq)

variable {β : Type}

variable {a b : VersionedCrdsValue β} {size i : Nat}

def isContactInfo (entry : VersionedCrdsValue β) : Bool :=
  match entry.value.data with
  | .legacyContactInfo _ => true
  | _ => false

def isVote (entry : VersionedCrdsValue β) : Bool :=
  match entry.value.data with
  | .vote _ _ => true
  | _ => false

def isEpochSlots (entry : VersionedCrdsValue β) : Bool :=
  match entry.value.data with
  | .epochSlots _ _ => true
  | _ => false

def isDuplicateShred (entry : VersionedCrdsValue β) : Bool :=
  match entry.value.data with
  | .duplicateShred _ _ => true
  | _ => false

lemma same_kind (h : a.value.label = b.value.label) :
    isContactInfo a = isContactInfo b ∧ isVote a = isVote b ∧ isEpochSlots a = isEpochSlots b ∧
      isDuplicateShred a = isDuplicateShred b ∧ a.value.pubkey = b.value.pubkey := by
  obtain ⟨_, ⟨_, da⟩, _, _, _⟩ := a
  obtain ⟨_, ⟨_, db⟩, _, _, _⟩ := b
  cases da <;> cases db <;>
    simp_all [CrdsValue.label, CrdsValue.pubkey, isContactInfo, isVote, isEpochSlots, isDuplicateShred]

lemma iff_and_ne {p : Prop} {j k : Nat} (h : j = k → ¬ p) : p ↔ p ∧ j ≠ k :=
  ⟨fun hp => ⟨hp, fun heq => h heq hp⟩, And.left⟩

/-- The map takes the ordinals of these entries to their positions. -/
abbrev OrdinalTracks (P : VersionedCrdsValue β → Bool) (l : List (VersionedCrdsValue β))
    (m : TreeMap Nat Nat) : Prop :=
  Tracks (fun o entry => P entry = true ∧ entry.ordinal = o) l fun o i => m[o]? = some i

/-- The map takes the ordinals of these entries to their positions, except for one position. -/
abbrev OrdinalTracksBut (P : VersionedCrdsValue β → Bool) (l : List (VersionedCrdsValue β)) (i : Nat)
    (m : TreeMap Nat Nat) : Prop :=
  TracksBut (fun o entry => P entry = true ∧ entry.ordinal = o) l i fun o i => m[o]? = some i

section Ordinals

variable {P : VersionedCrdsValue β → Bool} {l : List (VersionedCrdsValue β)} {m : TreeMap Nat Nat}

section

variable (h : OrdinalTracks P l m)

include h

lemma ordinal_free (hfresh : ∀ e ∈ l, e.ordinal ≠ a.ordinal) : m[a.ordinal]? = none := by
  rw [Option.eq_none_iff_forall_ne_some]
  intro j hj
  obtain ⟨e, he, -, heq⟩ := (h _ j).1 hj
  exact hfresh e (mem_of_getElem? he) heq

lemma OrdinalTracks.push (hfresh : ∀ e ∈ l, e.ordinal ≠ a.ordinal) :
    OrdinalTracks P (l ++ [a]) (if P a then m.insert a.ordinal l.length else m) := by
  refine Tracks.push h fun o j => ?_
  have hfree := ordinal_free h hfresh
  by_cases hP : P a = true
  · rw [if_pos hP, getElem?_insert_eq]
    by_cases ho : o = a.ordinal
    · subst ho
      simp [hP, hfree, eq_comm]
    · simp [ho, Ne.symm ho]
  · simp [hP]

lemma ordinal_erased (hb : l[i]? = some b) (o j : Nat) :
    (if P b then m.erase b.ordinal else m)[o]? = some j ↔ m[o]? = some j ∧ j ≠ i := by
  have hi := h.iff_of_getElem? hb
  have hb' := hi b.ordinal
  split_ifs with hP
  · rw [getElem?_erase_eq]
    by_cases ho : o = b.ordinal
    · subst ho
      rw [hb'.2 ⟨hP, rfl⟩]
      simp [eq_comm]
    · rw [if_neg ho]
      exact iff_and_ne (by rintro rfl hj; exact ho ((hi o).1 hj).2.symm)
  · exact iff_and_ne (by rintro rfl hj; exact hP ((hi o).1 hj).1)

lemma OrdinalTracks.erased (hb : l[i]? = some b) :
    OrdinalTracksBut P l i (if P b then m.erase b.ordinal else m) :=
  Tracks.forget h (ordinal_erased h hb)

lemma OrdinalTracks.replace (hb : l[i]? = some b)
    (hfresh : ∀ e ∈ l, e.ordinal ≠ a.ordinal) (hP : P a = P b) :
    OrdinalTracks P (l.set i a) (if P a then (m.erase b.ordinal).insert a.ordinal i else m) := by
  refine Tracks.replace h hb fun o j => ?_
  rw [← ordinal_erased h hb o j, ← hP]
  by_cases hPa : P a = true
  · rw [if_pos hPa, if_pos hPa, getElem?_insert_eq]
    by_cases ho : o = a.ordinal
    · subst ho
      simp [getElem?_erase_eq, ordinal_free h hfresh, hPa, eq_comm]
    · simp [ho, Ne.symm ho]
  · simp [hPa]

end

lemma ordinal_moved (hsize : ∀ o, m[o]? = some size ↔ P a = true ∧ a.ordinal = o) (o j : Nat) :
    (if P a then m.insert a.ordinal i else m)[o]? = some j ↔
      m[o]? = some j ∧ j ≠ size ∨ j = i ∧ m[o]? = some size := by
  by_cases hP : P a = true
  · rw [if_pos hP, getElem?_insert_eq]
    by_cases ho : o = a.ordinal
    · subst ho
      rw [if_pos rfl, (hsize _).2 ⟨hP, rfl⟩]
      simp only [Option.some.injEq, eq_comm (a := size), and_true, and_not_self_iff, false_or, ne_eq]
      exact eq_comm
    · have hnot : m[o]? ≠ some size := fun heq => ho ((hsize o).1 heq).2.symm
      rw [if_neg ho]
      simp only [hnot, and_false, or_false]
      exact iff_and_ne (by rintro rfl; exact hnot)
  · have hnot : m[o]? ≠ some size := fun heq => hP ((hsize o).1 heq).1
    rw [if_neg hP]
    simp only [hnot, and_false, or_false]
    exact iff_and_ne (by rintro rfl; exact hnot)

lemma OrdinalTracksBut.moved (h : OrdinalTracksBut P l i m) (hmid : i < l.length - 1)
    (ha : l[l.length - 1]? = some a) :
    OrdinalTracks P (IndexMaps.swapRemove l i) (if P a then m.insert a.ordinal i else m) :=
  h.swapRemove_move hmid (ordinal_moved (h.iff_of_getElem? hmid.ne' ha))

end Ordinals

section Nodes

variable {s : IndexSet Nat} {l : List (VersionedCrdsValue β)}

abbrev NodeTracks (l : List (VersionedCrdsValue β)) (s : IndexSet Nat) : Prop :=
  Tracks (fun (_ : Unit) entry => isContactInfo entry = true) l fun _ i => i ∈ s.keys

abbrev NodeTracksBut (l : List (VersionedCrdsValue β)) (i : Nat) (s : IndexSet Nat) : Prop :=
  TracksBut (fun (_ : Unit) entry => isContactInfo entry = true) l i fun _ i => i ∈ s.keys

lemma NodeTracks.push (h : NodeTracks l s) :
    NodeTracks (l ++ [a]) (if isContactInfo a then s.insert l.length () else s) := by
  refine Tracks.push h fun _ j => ?_
  split_ifs with hc
  · simp [IndexMap.mem_keys_insert, hc, or_comm]
  · simp [hc]

lemma NodeTracks.erased (h : NodeTracks l s) (hb : l[i]? = some b) :
    NodeTracksBut l i (if isContactInfo b then s.swapRemove i else s) := by
  refine Tracks.forget h fun _ j => ?_
  split_ifs with hc
  · rw [IndexMap.mem_keys_swapRemove]
  · exact iff_and_ne (by rintro rfl hj; exact hc ((h.iff_of_getElem? hb ()).1 hj))

lemma node_moved (hsize : size ∈ s.keys ↔ isContactInfo a = true) (j : Nat) :
    j ∈ (if isContactInfo a then (s.swapRemove size).insert i () else s).keys ↔
      j ∈ s.keys ∧ j ≠ size ∨ j = i ∧ size ∈ s.keys := by
  split_ifs with hc
  · simp [IndexMap.mem_keys_insert, IndexMap.mem_keys_swapRemove, hsize.2 hc, or_comm]
  · have hnot := mt hsize.1 hc
    simp only [hnot, and_false, or_false]
    exact iff_and_ne (by rintro rfl; exact hnot)

lemma NodeTracksBut.moved (h : NodeTracksBut l i s) (hmid : i < l.length - 1)
    (ha : l[l.length - 1]? = some a) :
    NodeTracks (IndexMaps.swapRemove l i)
      (if isContactInfo a then (s.swapRemove (l.length - 1)).insert i () else s) :=
  h.swapRemove_move hmid fun _ => node_moved (h.iff_of_getElem? hmid.ne' ha ())

end Nodes

section Records

def InRecord (records : TreeMap Pubkey (IndexSet Nat)) (pubkey : Pubkey) (i : Nat) : Prop :=
  ∃ record, records[pubkey]? = some record ∧ i ∈ record.keys

abbrev RecordTracks (l : List (VersionedCrdsValue β)) (records : TreeMap Pubkey (IndexSet Nat)) : Prop :=
  Tracks (fun pubkey entry => entry.value.pubkey = pubkey) l (InRecord records)

abbrev RecordTracksBut (l : List (VersionedCrdsValue β)) (i : Nat)
    (records : TreeMap Pubkey (IndexSet Nat)) : Prop :=
  TracksBut (fun pubkey entry => entry.value.pubkey = pubkey) l i (InRecord records)

variable {records : TreeMap Pubkey (IndexSet Nat)} {record : IndexSet Nat}
  {pubkey pubkey' : Pubkey} {l : List (VersionedCrdsValue β)} {j : Nat}

lemma inRecord_insert :
    InRecord (records.insert pubkey record) pubkey' j ↔
      if pubkey' = pubkey then j ∈ record.keys else InRecord records pubkey' j := by
  unfold InRecord
  rw [getElem?_insert_eq]
  split_ifs with h
  · simp
  · rfl

lemma inRecord_erase :
    InRecord (records.erase pubkey) pubkey' j ↔ pubkey' ≠ pubkey ∧ InRecord records pubkey' j := by
  unfold InRecord
  rw [getElem?_erase_eq]
  split_ifs with h <;> simp [h]

lemma inRecord_iff_of_getElem? (h : records[pubkey]? = some record) :
    InRecord records pubkey j ↔ j ∈ record.keys := by
  simp [InRecord, h]

lemma RecordTracks.push (h : RecordTracks l records) :
    RecordTracks (l ++ [a]) (records.insert a.value.pubkey
      (((records[a.value.pubkey]?).getD .empty).insert l.length ())) := by
  refine Tracks.push h fun pubkey j => ?_
  rw [inRecord_insert]
  split_ifs with hp
  · subst hp
    rw [IndexMap.mem_keys_insert, or_comm]
    cases hr : records[a.value.pubkey]? with
    | none => simp [InRecord, hr, IndexMap.empty, IndexMap.keys]
    | some record => simp [InRecord, hr]
  · simp [Ne.symm hp]

lemma inRecord_erased (records' : TreeMap Pubkey (IndexSet Nat)) (hr : records[pubkey]? = some record)
    (honly : ∀ pubkey', InRecord records pubkey' i → pubkey' = pubkey)
    (hrecords : ∀ pubkey' j, InRecord records' pubkey' j ↔
      if pubkey' = pubkey then j ∈ record.keys ∧ j ≠ i else InRecord records pubkey' j)
    (pubkey' : Pubkey) (j : Nat) :
    InRecord records' pubkey' j ↔ InRecord records pubkey' j ∧ j ≠ i := by
  rw [hrecords]
  split_ifs with hp
  · subst hp
    rw [inRecord_iff_of_getElem? hr]
  · exact iff_and_ne (by rintro rfl hj; exact hp (honly pubkey' hj))

lemma inRecord_moved (hr : records[pubkey]? = some record)
    (hsize : ∀ pubkey', InRecord records pubkey' size ↔ pubkey = pubkey') (pubkey' : Pubkey)
    (j : Nat) :
    InRecord (records.insert pubkey ((record.swapRemove size).insert i ())) pubkey' j ↔
      InRecord records pubkey' j ∧ j ≠ size ∨ j = i ∧ InRecord records pubkey' size := by
  rw [inRecord_insert, hsize]
  split_ifs with hp
  · subst hp
    rw [inRecord_iff_of_getElem? hr, IndexMap.mem_keys_insert, IndexMap.mem_keys_swapRemove]
    simp [or_comm]
  · simp only [Ne.symm hp, and_false, or_false]
    exact iff_and_ne (by rintro rfl hj; exact hp ((hsize pubkey').1 hj).symm)

end Records

section Shards

structure Sized (shards : CrdsShards) : Prop where
  bits : shards.shardBits = crdsShardsBits
  length : shards.shards.length = 2 ^ crdsShardsBits

def InShard (shards : CrdsShards) (key : Nat × Nat) (i : Nat) : Prop :=
  ∃ shard, shards.shards[key.1]? = some shard ∧ (i, key.2) ∈ shard.entries

/-- The number of the shard, from the first bits of the hash, and the hash. -/
def shardKey (entry : VersionedCrdsValue β) : Nat × Nat :=
  (hashAsU64 entry.valueHash / 2 ^ 52, hashAsU64 entry.valueHash)

abbrev ShardTracks (l : List (VersionedCrdsValue β)) (shards : CrdsShards) : Prop :=
  Tracks (fun key entry => shardKey entry = key) l (InShard shards)

abbrev ShardTracksBut (l : List (VersionedCrdsValue β)) (i : Nat) (shards : CrdsShards) : Prop :=
  TracksBut (fun key entry => shardKey entry = key) l i (InShard shards)

variable {shards : CrdsShards}

lemma hashAsU64_lt (hash : Hash) : hashAsU64 hash < 2 ^ 64 := by
  have h := ByteStrings.ofLeBytes_lt
    ((range 8).map fun i => UInt8.ofNat (hash / 256 ^ (31 - i)))
  rw [length_map, length_range] at h
  exact h.trans_eq (by norm_num)

lemma shardKey_lt (a : VersionedCrdsValue β) : (shardKey a).1 < 2 ^ crdsShardsBits := by
  have h := hashAsU64_lt a.valueHash
  rw [shardKey, crdsShardsBits]
  omega

section

variable (h : Sized shards)

include h

lemma Sized.modifyShard (a : VersionedCrdsValue β) (f : IndexMap Nat Nat → IndexMap Nat Nat) :
    ∃ shard shards', shards.shards[(shardKey a).1]? = some shard ∧
      shards.modifyShard (hashAsU64 a.valueHash) f = some shards' ∧ Sized shards' ∧
      ∀ key j, InShard shards' key j ↔
        if key.1 = (shardKey a).1 then (j, key.2) ∈ (f shard).entries else InShard shards key j := by
  have hindex : shards.shardIndex (hashAsU64 a.valueHash) = (shardKey a).1 := by
    rw [CrdsShards.shardIndex, h.bits]
    rfl
  have hlt : (shardKey a).1 < shards.shards.length := h.length ▸ shardKey_lt a
  refine ⟨shards.shards[(shardKey a).1],
    { shards with shards := shards.shards.set (shardKey a).1 (f shards.shards[(shardKey a).1]) },
    getElem?_eq_getElem hlt, ?_, ⟨h.bits, ?_⟩, ?_⟩
  · rw [CrdsShards.modifyShard, hindex, getElem?_eq_getElem hlt]
    rfl
  · rw [length_set]
    exact h.length
  · intro key j
    unfold InShard
    rw [getElem?_set]
    by_cases hkey : (shardKey a).1 = key.1
    · rw [if_pos hkey, if_pos hlt, if_pos hkey.symm]
      simp
    · rw [if_neg hkey, if_neg (Ne.symm hkey)]

lemma Sized.insert (i : Nat) (a : VersionedCrdsValue β) :
    ∃ shards', shards.insert i a = some shards' ∧ Sized shards' ∧ ∀ key j, InShard shards' key j ↔
      j = i ∧ shardKey a = key ∨ InShard shards key j ∧ ¬ (j = i ∧ key.1 = (shardKey a).1) := by
  obtain ⟨shard, shards', hshard, heq, hsized, hin⟩ :=
    h.modifyShard a (·.insert i (hashAsU64 a.valueHash))
  refine ⟨shards', heq, hsized, fun key j => ?_⟩
  rw [hin]
  split_ifs with hkey
  · have hcur : InShard shards key j ↔ (j, key.2) ∈ shard.entries := by
      simp [InShard, hkey, hshard]
    rw [hcur, IndexMap.mem_insert, Prod.mk.injEq]
    have hsnd : shardKey a = key ↔ key.2 = hashAsU64 a.valueHash := by
      rw [Prod.ext_iff]
      simp [hkey, shardKey, eq_comm]
    simp [hsnd, hkey]
  · have hne : shardKey a ≠ key := fun heq => hkey (congrArg Prod.fst heq.symm)
    simp [hkey, hne]

lemma Sized.remove (i : Nat) (b : VersionedCrdsValue β) :
    ∃ shards', shards.remove i b = some shards' ∧ Sized shards' ∧ ∀ key j,
      InShard shards' key j ↔ InShard shards key j ∧ ¬ (j = i ∧ key.1 = (shardKey b).1) := by
  obtain ⟨shard, shards', hshard, heq, hsized, hin⟩ := h.modifyShard b (·.swapRemove i)
  refine ⟨shards', heq, hsized, fun key j => ?_⟩
  rw [hin]
  split_ifs with hkey
  · simp [InShard, hkey, hshard, IndexMap.mem_swapRemove]
  · simp [hkey]

lemma Sized.remove_only (honly : ∀ key, InShard shards key i → shardKey b = key) :
    ∃ shards', shards.remove i b = some shards' ∧ Sized shards' ∧
      ∀ key j, InShard shards' key j ↔ InShard shards key j ∧ j ≠ i := by
  obtain ⟨shards', heq, hsized, hin⟩ := h.remove i b
  refine ⟨shards', heq, hsized, fun key j => ?_⟩
  rw [hin]
  refine and_congr_right fun hj => ?_
  constructor
  · rintro hnot rfl
    exact hnot ⟨rfl, congrArg Prod.fst (honly key hj).symm⟩
  · exact fun hne hand => hne hand.1

lemma Sized.insert_new (hfree : ∀ key, ¬ InShard shards key i) :
    ∃ shards', shards.insert i a = some shards' ∧ Sized shards' ∧ ∀ key j,
      InShard shards' key j ↔ InShard shards key j ∨ j = i ∧ shardKey a = key := by
  obtain ⟨shards', heq, hsized, hin⟩ := h.insert i a
  refine ⟨shards', heq, hsized, fun key j => ?_⟩
  have hne : InShard shards key j → j ≠ i := by
    rintro hj rfl
    exact hfree key hj
  rw [hin]
  tauto

end

end Shards

end Nuah.Proofs
