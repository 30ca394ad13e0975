import Nuah.Proofs.CrdsConvergence

/-!
# Reads of the gossip table by a cursor

An ordinal is given once. Those that a reader has not yet seen are at or above its cursor.
-/

namespace Nuah.Proofs

open Std (TreeMap)
open ExceptLoops List Option Crds

variable {β : Type} {crds : Crds β}

lemma foldl_consume_le {range : List (Nat × Nat)} {cursor n : Nat} :
    range.foldl (fun cursor p => max cursor (p.1 + 1)) cursor ≤ n ↔
      cursor ≤ n ∧ ∀ p ∈ range, p.1 < n := by
  induction range generalizing cursor with
  | nil => simp
  | cons p range ih =>
    rw [foldl_cons, ih, max_le_iff, forall_mem_cons, and_assoc]
    rfl

/-- A read returns what is in the table and at or above the cursor. -/
lemma readFrom_spec {P : VersionedCrdsValue β → Bool} {index : TreeMap Nat Nat} (h : Indexed crds)
    (hindex : OrdinalTracks P crds.table.values index) {cursor : Nat}
    (hcursor : cursor ≤ crds.cursor) :
    ∃ values cursor', crds.readFrom index cursor = some (values, cursor') ∧
      (values.map VersionedCrdsValue.ordinal).Nodup ∧
      (∀ e, e ∈ values ↔ e ∈ crds.table.values ∧ P e ∧ cursor ≤ e.ordinal) ∧
      cursor ≤ cursor' ∧ cursor' ≤ crds.cursor ∧ ∀ e ∈ values, e.ordinal < cursor' := by
  have hget {p} (hp : p ∈ index.toList.filter (cursor ≤ ·.1)) : cursor ≤ p.1 ∧
      ∃ e, crds.table.values[p.2]? = some e ∧ P e ∧ e.ordinal = p.1 := by
    obtain ⟨hp, hle⟩ := mem_filter.1 hp
    exact ⟨by simpa using hle, (hindex _ _).1 (TreeMap.mem_toList_iff_getElem?_eq_some.1 hp)⟩
  obtain ⟨values, hvalues, hfrom⟩ := exists_mapM_eq_some
    (f := fun p : Nat × Nat => crds.table.values[p.2]?) fun p hp => by
      obtain ⟨-, e, he, -⟩ := hget hp
      simp [he]
  have hordinals := map_eq_of_mapM (g := VersionedCrdsValue.ordinal) hvalues fun p hp e he => by
    obtain ⟨-, e', he', -, hordinal⟩ := hget hp
    rw [mem_unique he he', hordinal]
  obtain ⟨hle, hlt⟩ := foldl_consume_le.1 le_rfl
  refine ⟨values, _, by rw [readFrom, hvalues]; rfl, ?_, fun e => ⟨fun he => ?_, ?_⟩, hle, ?_, ?_⟩
  · rw [hordinals]
    exact (TreeMap.map_fst_toList_eq_keys ▸ TreeMap.nodup_keys).sublist (filter_sublist.map _)
  · obtain ⟨p, hp, he⟩ := (hfrom e).1 he
    obtain ⟨hle, e', he', hP, hordinal⟩ := hget hp
    cases mem_unique he he'
    exact ⟨mem_of_getElem? he, hP, hordinal ▸ hle⟩
  · rintro ⟨he, hP, hle⟩
    obtain ⟨i, hi⟩ := mem_iff_getElem?.1 he
    have hp := TreeMap.mem_toList_iff_getElem?_eq_some.2 ((hindex e.ordinal i).2 ⟨e, hi, hP, rfl⟩)
    exact (hfrom e).2 ⟨(e.ordinal, i), mem_filter.2 ⟨hp, decide_eq_true hle⟩, hi⟩
  · refine foldl_consume_le.2 ⟨hcursor, fun p hp => ?_⟩
    obtain ⟨-, e, he, -, hordinal⟩ := hget hp
    exact hordinal ▸ h.ordinal_lt e (mem_of_getElem? he)
  · intro e he
    obtain ⟨p, hp, heq⟩ := mem_map.1 (hordinals ▸ mem_map_of_mem (f := VersionedCrdsValue.ordinal) he)
    exact heq ▸ hlt p hp

/-- The reads of the table, which only differ in their index. -/
inductive CrdsReader where
  | votes
  | epochSlots
  | duplicateShreds
  | entries

def CrdsReader.get (crds : Crds β) (cursor : Nat) :
    CrdsReader → Option (List (VersionedCrdsValue β) × Nat)
  | votes => crds.getVotes cursor
  | epochSlots => crds.getEpochSlots cursor
  | duplicateShreds => crds.getDuplicateShreds cursor
  | entries => crds.getEntries cursor

def CrdsReader.reads (e : VersionedCrdsValue β) : CrdsReader → Bool
  | votes => isVote e
  | epochSlots => isEpochSlots e
  | duplicateShreds => isDuplicateShred e
  | entries => true

lemma CrdsReader.get_spec (reader : CrdsReader) (h : Indexed crds) {cursor : Nat}
    (hcursor : cursor ≤ crds.cursor) :
    ∃ values cursor', reader.get crds cursor = some (values, cursor') ∧
      (values.map VersionedCrdsValue.ordinal).Nodup ∧
      (∀ e, e ∈ values ↔ e ∈ crds.table.values ∧ reader.reads e ∧ cursor ≤ e.ordinal) ∧
      cursor ≤ cursor' ∧ cursor' ≤ crds.cursor ∧ ∀ e ∈ values, e.ordinal < cursor' := by
  cases reader with
  | votes => exact readFrom_spec h h.votes hcursor
  | epochSlots => exact readFrom_spec h h.epochSlots hcursor
  | duplicateShreds => exact readFrom_spec h h.duplicateShreds hcursor
  | entries => exact readFrom_spec h h.entries hcursor

/-- The table, a reader's cursor, and all that was returned to it. -/
structure Reading (β : Type) where
  crds : Crds β
  cursor : Nat
  returned : List (VersionedCrdsValue β)

/-- A call on the table, or a read of all that there is. -/
def Reading.exec (hashOf : CrdsValue β → Hash) (reader : CrdsReader) (s : Reading β) :
    Option (CrdsCall β) → Option (Reading β)
  | some call => do
    let crds ← call.exec hashOf s.crds
    some { s with crds := crds }
  | none => do
    let (values, cursor) ← reader.get s.crds s.cursor
    some ⟨s.crds, cursor, s.returned ++ values⟩

def readingRun (hashOf : CrdsValue β → Hash) (reader : CrdsReader)
    (events : List (Option (CrdsCall β))) : Option (Reading β) :=
  events.foldlM (Reading.exec hashOf reader) ⟨default, 0, []⟩

structure Reading.Behind (s : Reading β) : Prop where
  indexed : Indexed s.crds
  cursor_le : s.cursor ≤ s.crds.cursor
  returned_lt : ∀ e ∈ s.returned, e.ordinal < s.cursor
  nodup : (s.returned.map VersionedCrdsValue.ordinal).Nodup

lemma Reading.Behind.exec {hashOf : CrdsValue β → Hash} {reader : CrdsReader} {s : Reading β}
    (h : s.Behind) (event : Option (CrdsCall β)) :
    ∃ s', s.exec hashOf reader event = some s' ∧ s'.Behind := by
  cases event with
  | some call =>
    obtain ⟨crds', heq, hindexed, hfollows⟩ := call.exec_indexed hashOf h.indexed
    exact ⟨{ s with crds := crds' }, by rw [Reading.exec, heq]; rfl,
      { h with indexed := hindexed, cursor_le := h.cursor_le.trans hfollows.cursor }⟩
  | none =>
    obtain ⟨values, cursor', heq, hnodup, hmem, hle, hle', hlt⟩ :=
      reader.get_spec h.indexed h.cursor_le
    refine ⟨⟨s.crds, cursor', s.returned ++ values⟩, by rw [Reading.exec, heq]; rfl,
      h.indexed, hle', forall_mem_append.2 ⟨fun e he => ?_, hlt⟩, ?_⟩
    · exact (h.returned_lt e he).trans_le hle
    · rw [map_append, nodup_append]
      refine ⟨h.nodup, hnodup, fun o ho o' ho' heq => ?_⟩
      obtain ⟨e, he, rfl⟩ := mem_map.1 ho
      obtain ⟨e', he', rfl⟩ := mem_map.1 ho'
      have hlt := h.returned_lt e he
      have hge := ((hmem e').1 he').2.2
      omega

end Nuah.Proofs
