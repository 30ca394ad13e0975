import Mathlib

/-!
# Maps in insertion order

A new entry goes to the end, and a removed entry is replaced by the last one. `Tracks` says that
an index kept next to such a list holds exactly the positions of its elements under their keys.
-/

namespace IndexMaps

open List

variable {α β κ : Type*} {K V : Type}

variable {l : List α} {i : Nat} {f : V → V} {p : K × V}

lemma getElem?_concat_eq_some {a b : α} :
    (l ++ [a])[i]? = some b ↔ l[i]? = some b ∨ i = l.length ∧ a = b := by
  rcases Nat.lt_trichotomy i l.length with hlt | rfl | hgt
  · simp [getElem?_append_left hlt, hlt.ne]
  · simp
  · have hnone : (l ++ [a])[i]? = none := getElem?_eq_none (by simpa using hgt)
    simp [hnone, hgt.ne', hgt.le]

/-- A property of an element and of those before it, in a list with a new last element. -/
lemma exists_getElem?_concat {a : α} {P : List α → α → Prop} :
    (∃ i b, (l ++ [a])[i]? = some b ∧ P ((l ++ [a]).take i) b) ↔
      (∃ i b, l[i]? = some b ∧ P (l.take i) b) ∨ P l a := by
  have htake : ∀ {i b}, l[i]? = some b → (l ++ [a]).take i = l.take i := fun hi =>
    take_append_of_le_length (List.getElem?_eq_some_iff.1 hi).1.le
  simp only [getElem?_concat_eq_some]
  constructor
  · rintro ⟨i, b, hi | ⟨rfl, rfl⟩, hP⟩
    · exact .inl ⟨i, b, hi, htake hi ▸ hP⟩
    · rw [take_left] at hP
      exact .inr hP
  · rintro (⟨i, b, hi, hP⟩ | hP)
    · exact ⟨i, b, .inl hi, (htake hi).symm ▸ hP⟩
    · exact ⟨l.length, a, .inr ⟨rfl, rfl⟩, by rwa [take_left]⟩

/-- Removes the element at a position and puts the last one in its place. -/
def swapRemove (l : List α) (i : Nat) : List α :=
  match l.getLast? with
  | none => []
  | some last => (l.set i last).dropLast

lemma swapRemove_concat (l : List α) (last : α) (i : Nat) :
    swapRemove (l ++ [last]) i = ((l ++ [last]).set i last).dropLast := by
  rw [swapRemove, getLast?_concat]

@[simp] lemma length_swapRemove (l : List α) (i : Nat) : (swapRemove l i).length = l.length - 1 := by
  induction l using List.reverseRecOn with
  | nil => rfl
  | append_singleton l last _ => rw [swapRemove_concat, length_dropLast, length_set]

lemma getElem?_swapRemove (l : List α) (i j : Nat) :
    (swapRemove l i)[j]? = if j + 1 < l.length then l[if j = i then l.length - 1 else j]? else none := by
  induction l using List.reverseRecOn with
  | nil => rfl
  | append_singleton l last _ =>
    rw [swapRemove_concat, getElem?_dropLast, length_set, length_append,
      length_singleton, Nat.add_sub_cancel, getElem?_set]
    by_cases hj : j < l.length
    · rw [if_pos hj, if_pos (Nat.add_lt_add_right hj 1)]
      by_cases hij : i = j
      · rw [if_pos hij, if_pos hij.symm, if_pos, getElem?_concat_length]
        rw [length_append, length_singleton]
        omega
      · rw [if_neg hij, if_neg (Ne.symm hij)]
    · rw [if_neg hj, if_neg (by omega)]

lemma swapRemove_perm (h : i < l.length) : (swapRemove l i).Perm (l.eraseIdx i) := by
  induction l using List.reverseRecOn with
  | nil => exact absurd h (Nat.not_lt_zero i)
  | append_singleton l last _ =>
    rw [swapRemove_concat]
    by_cases hi : i < l.length
    · rw [set_append_left _ _ hi, dropLast_concat, eraseIdx_append_of_lt_length hi]
      exact (set_perm_cons_eraseIdx hi last).trans (perm_append_singleton last _).symm
    · have heq : i = l.length := by
        rw [length_append, length_singleton] at h
        omega
      subst heq
      rw [set_append_right _ _ le_rfl, eraseIdx_append_of_length_le le_rfl]
      simp

lemma map_swapRemove (f : α → β) (l : List α) (i : Nat) :
    (swapRemove l i).map f = swapRemove (l.map f) i := by
  apply ext_getElem?
  intro j
  rw [getElem?_map, getElem?_swapRemove, getElem?_swapRemove, length_map]
  split_ifs <;> simp

/-- The index holds a key and a position exactly when the element at the position has the key. -/
def Tracks (hasKey : κ → α → Prop) (l : List α) (index : κ → Nat → Prop) : Prop :=
  ∀ k i, index k i ↔ ∃ a, l[i]? = some a ∧ hasKey k a

namespace Tracks

variable {hasKey : κ → α → Prop} {index index' : κ → Nat → Prop} {a b : α}

section

variable (h : Tracks hasKey l index)

include h

lemma lt_length {k : κ} (hk : index k i) : i < l.length := by
  obtain ⟨a, ha, -⟩ := (h k i).1 hk
  exact (List.getElem?_eq_some_iff.1 ha).1

lemma iff_of_getElem? (ha : l[i]? = some a) (k : κ) : index k i ↔ hasKey k a := by
  rw [h k i]
  constructor
  · rintro ⟨a', ha', hkey⟩
    rwa [Option.mem_unique ha ha']
  · exact fun hkey => ⟨a, ha, hkey⟩

lemma push (hindex : ∀ k j, index' k j ↔ index k j ∨ j = l.length ∧ hasKey k a) :
    Tracks hasKey (l ++ [a]) index' := by
  intro k j
  simp only [hindex, h k j, getElem?_concat_eq_some]
  constructor
  · rintro (⟨a', ha', hkey⟩ | ⟨rfl, hkey⟩)
    · exact ⟨a', .inl ha', hkey⟩
    · exact ⟨a, .inr ⟨rfl, rfl⟩, hkey⟩
  · rintro ⟨a', ha' | ⟨rfl, rfl⟩, hkey⟩
    · exact .inl ⟨a', ha', hkey⟩
    · exact .inr ⟨rfl, hkey⟩

lemma replace (hb : l[i]? = some b)
    (hindex : ∀ k j, index' k j ↔ index k j ∧ j ≠ i ∨ j = i ∧ hasKey k a) :
    Tracks hasKey (l.set i a) index' := by
  intro k j
  rw [hindex, getElem?_set]
  by_cases hj : i = j
  · subst hj
    rw [if_pos rfl, if_pos (List.getElem?_eq_some_iff.1 hb).1]
    simp
  · rw [if_neg hj, h k j]
    simp [Ne.symm hj]

lemma replace_same (hb : l[i]? = some b)
    (hsame : ∀ k, hasKey k a ↔ hasKey k b) : Tracks hasKey (l.set i a) index := by
  refine h.replace hb fun k j => ?_
  by_cases hj : j = i
  · subst hj
    simp [hsame, h.iff_of_getElem? hb]
  · simp [hj]

end

end Tracks

def TracksBut (hasKey : κ → α → Prop) (l : List α) (i : Nat) (index : κ → Nat → Prop) : Prop :=
  ∀ k j, index k j ↔ j ≠ i ∧ ∃ a, l[j]? = some a ∧ hasKey k a

section TracksBut

variable {hasKey : κ → α → Prop} {index index' : κ → Nat → Prop} {a : α} {j : Nat}

lemma Tracks.forget (h : Tracks hasKey l index) (hindex : ∀ k j, index' k j ↔ index k j ∧ j ≠ i) :
    TracksBut hasKey l i index' := by
  intro k j
  rw [hindex, h k j, and_comm]

namespace TracksBut

section

variable (h : TracksBut hasKey l i index)

include h

lemma iff_of_getElem? (hne : j ≠ i) (ha : l[j]? = some a) (k : κ) : index k j ↔ hasKey k a := by
  rw [h k j, ha]
  simp [hne]

lemma swapRemove_last (hlast : i + 1 = l.length) : Tracks hasKey (swapRemove l i) index := by
  intro k j
  rw [h k j, getElem?_swapRemove]
  by_cases hj : j + 1 < l.length
  · have hne : j ≠ i := by omega
    rw [if_pos hj, if_neg hne]
    simp [hne]
  · rw [if_neg hj]
    constructor
    · rintro ⟨hne, a, ha, -⟩
      have hlt := (List.getElem?_eq_some_iff.1 ha).1
      omega
    · rintro ⟨a, ha, -⟩
      cases ha

lemma swapRemove_move (hmid : i < l.length - 1) (hindex : ∀ k j, index' k j ↔
      index k j ∧ j ≠ l.length - 1 ∨ j = i ∧ index k (l.length - 1)) :
    Tracks hasKey (swapRemove l i) index' := by
  intro k j
  rw [hindex, h, h, getElem?_swapRemove]
  by_cases hji : j = i
  · subst hji
    rw [if_pos (by omega), if_pos rfl]
    simp [show l.length - 1 ≠ j by omega]
  · rw [if_neg hji]
    by_cases hj : j + 1 < l.length
    · rw [if_pos hj]
      simp [hji, show j ≠ l.length - 1 by omega]
    · rw [if_neg hj]
      constructor
      · rintro (⟨⟨-, a, ha, -⟩, hne⟩ | ⟨heq, -⟩)
        · have hlt := (List.getElem?_eq_some_iff.1 ha).1
          omega
        · exact absurd heq hji
      · rintro ⟨a, ha, -⟩
        cases ha

end

end TracksBut

end TracksBut

structure IndexMap (K V : Type) where
  entries : List (K × V)
  nodup : (entries.map Prod.fst).Nodup

abbrev IndexSet (K : Type) := IndexMap K Unit

namespace IndexMap

def empty : IndexMap K V := ⟨[], nodup_nil⟩

def len (m : IndexMap K V) : Nat := m.entries.length

def keys (m : IndexMap K V) : List K := m.entries.map Prod.fst

def values (m : IndexMap K V) : List V := m.entries.map Prod.snd

def getIndex (m : IndexMap K V) (i : Nat) : Option (K × V) := m.entries[i]?

variable {m : IndexMap K V} {k : K} {v : V}

@[simp] lemma length_values : m.values.length = m.len := length_map _

lemma values_getElem? : m.values[i]? = (m.entries[i]?).map Prod.snd := getElem?_map

lemma mem_keys_iff : k ∈ m.keys ↔ ∃ v, (k, v) ∈ m.entries := by
  rw [keys, mem_map]
  constructor
  · rintro ⟨⟨k', v⟩, hmem, rfl⟩
    exact ⟨v, hmem⟩
  · rintro ⟨v, hmem⟩
    exact ⟨(k, v), hmem, rfl⟩

variable [DecidableEq K]

def getIndexOf (m : IndexMap K V) (k : K) : Option Nat := m.entries.findIdx? (·.1 = k)

def get (m : IndexMap K V) (k : K) : Option V := do
  let i ← m.getIndexOf k
  m.values[i]?

lemma getIndexOf_eq_some_iff : m.getIndexOf k = some i ↔ ∃ v, m.entries[i]? = some (k, v) := by
  rw [getIndexOf, findIdx?_eq_some_iff_getElem]
  constructor
  · rintro ⟨hi, hk, -⟩
    refine ⟨m.entries[i].2, ?_⟩
    rw [getElem?_eq_getElem hi, Option.some.injEq]
    exact Prod.ext (of_decide_eq_true hk) rfl
  · rintro ⟨v, hv⟩
    obtain ⟨hi, heq⟩ := List.getElem?_eq_some_iff.1 hv
    refine ⟨hi, by simp [heq], ?_⟩
    intro j hj
    have hne := pairwise_iff_getElem.1 m.nodup j i (by simp; omega) (by simpa using hi) hj
    simpa [heq] using hne

lemma getIndexOf_eq_none_iff : m.getIndexOf k = none ↔ k ∉ m.keys := by
  rw [getIndexOf, findIdx?_eq_none_iff, keys, mem_map]
  constructor
  · rintro h ⟨p, hp, rfl⟩
    simpa using h p hp
  · intro h p hp
    exact decide_eq_false fun heq => h ⟨p, hp, heq⟩

lemma lt_len_of_getIndexOf (h : m.getIndexOf k = some i) : i < m.len := by
  obtain ⟨v, hv⟩ := getIndexOf_eq_some_iff.1 h
  exact (List.getElem?_eq_some_iff.1 hv).1

lemma get_eq_some_iff : m.get k = some v ↔ (k, v) ∈ m.entries := by
  rw [get]
  constructor
  · intro h
    obtain ⟨i, hi, hv⟩ := Option.bind_eq_some_iff.1 h
    obtain ⟨v', hv'⟩ := getIndexOf_eq_some_iff.1 hi
    rw [values_getElem?, hv', Option.map_some, Option.some.injEq] at hv
    exact hv ▸ mem_of_getElem? hv'
  · intro h
    obtain ⟨i, hi⟩ := mem_iff_getElem?.1 h
    rw [getIndexOf_eq_some_iff.2 ⟨v, hi⟩, Option.bind_eq_bind, Option.bind_some, values_getElem?, hi]
    rfl

omit [DecidableEq K] in
lemma keys_modify (l : List (K × V)) (i : Nat) (f : V → V) :
    (l.modify i fun p => (p.1, f p.2)).map Prod.fst = l.map Prod.fst := by
  apply ext_getElem?
  intro j
  rw [getElem?_map, getElem?_modify, getElem?_map]
  cases l[j]? with
  | none => rfl
  | some p => by_cases hij : i = j <;> simp [hij]

def modifyIndex (m : IndexMap K V) (i : Nat) (f : V → V) : IndexMap K V where
  entries := m.entries.modify i fun p => (p.1, f p.2)
  nodup := by
    rw [keys_modify]
    exact m.nodup

/-- The entry of the key keeps its position, or a new one goes to the end. -/
def insert (m : IndexMap K V) (k : K) (v : V) : IndexMap K V :=
  match h : m.getIndexOf k with
  | some i => m.modifyIndex i fun _ => v
  | none =>
    ⟨m.entries ++ [(k, v)], by
      rw [map_append]
      refine List.Nodup.append m.nodup (nodup_singleton _) ?_
      simpa [keys] using getIndexOf_eq_none_iff.1 h⟩

def swapRemoveIndex (m : IndexMap K V) (i : Nat) : IndexMap K V where
  entries := if i < m.len then IndexMaps.swapRemove m.entries i else m.entries
  nodup := by
    split_ifs with hi
    · refine ((swapRemove_perm hi).map Prod.fst).nodup_iff.2 ?_
      exact m.nodup.sublist ((eraseIdx_sublist _ _).map Prod.fst)
    · exact m.nodup

/-- Removes the entry of the key, with its position and value, and puts the last entry there. -/
def swapRemoveFull (m : IndexMap K V) (k : K) : Option (Nat × V × IndexMap K V) := do
  let i ← m.getIndexOf k
  let v ← m.values[i]?
  some (i, v, m.swapRemoveIndex i)

def swapRemove (m : IndexMap K V) (k : K) : IndexMap K V :=
  match m.getIndexOf k with
  | some i => m.swapRemoveIndex i
  | none => m

lemma insert_of_some (h : m.getIndexOf k = some i) : m.insert k v = m.modifyIndex i fun _ => v := by
  unfold insert
  split
  · rename_i j hj
    rw [Option.mem_unique h hj]
  · rename_i hnone
    rw [h] at hnone
    cases hnone

lemma entries_insert_of_none (h : m.getIndexOf k = none) :
    (m.insert k v).entries = m.entries ++ [(k, v)] := by
  unfold insert
  split
  · rename_i hsome
    rw [h] at hsome
    cases hsome
  · rfl

omit [DecidableEq K] in
lemma values_modifyIndex (h : m.values[i]? = some v) :
    (m.modifyIndex i f).values = m.values.set i (f v) := by
  apply ext_getElem?
  intro j
  rw [values_getElem?, modifyIndex, getElem?_modify, getElem?_set]
  by_cases hij : i = j
  · subst hij
    rw [if_pos rfl, if_pos (List.getElem?_eq_some_iff.1 h).1]
    rw [values_getElem?] at h
    obtain ⟨p, hp, rfl⟩ := Option.map_eq_some_iff.1 h
    simp [hp]
  · rw [if_neg hij, values_getElem?]
    simp [hij]

lemma values_insert_of_none (h : m.getIndexOf k = none) : (m.insert k v).values = m.values ++ [v] := by
  rw [values, entries_insert_of_none h, map_append]
  rfl

omit [DecidableEq K] in
lemma entries_swapRemoveIndex (h : i < m.len) :
    (m.swapRemoveIndex i).entries = IndexMaps.swapRemove m.entries i := if_pos h

omit [DecidableEq K] in
lemma values_swapRemoveIndex (h : i < m.len) :
    (m.swapRemoveIndex i).values = IndexMaps.swapRemove m.values i := by
  rw [values, entries_swapRemoveIndex h, map_swapRemove]
  rfl

lemma key_ne_iff {j : Nat} (hi : m.getIndexOf k = some i) (hj : m.entries[j]? = some p) :
    p.1 ≠ k ↔ j ≠ i := by
  rw [not_iff_not]
  constructor
  · rintro rfl
    exact Option.mem_unique (getIndexOf_eq_some_iff.2 ⟨p.2, hj⟩) hi
  · rintro rfl
    obtain ⟨v, hv⟩ := getIndexOf_eq_some_iff.1 hi
    exact congrArg Prod.fst (Option.mem_unique hj hv)

lemma mem_insert : p ∈ (m.insert k v).entries ↔ p = (k, v) ∨ p ∈ m.entries ∧ p.1 ≠ k := by
  cases hi : m.getIndexOf k with
  | none =>
    have hne : p ∈ m.entries → p.1 ≠ k := by
      rintro hp rfl
      exact getIndexOf_eq_none_iff.1 hi (mem_keys_iff.2 ⟨p.2, hp⟩)
    rw [entries_insert_of_none hi, mem_append, mem_singleton]
    tauto
  | some i =>
    obtain ⟨w, hw⟩ := getIndexOf_eq_some_iff.1 hi
    rw [insert_of_some hi, modifyIndex, mem_iff_getElem?, mem_iff_getElem?]
    simp only [getElem?_modify]
    constructor
    · rintro ⟨j, hj⟩
      by_cases hij : i = j
      · subst hij
        left
        simpa [hw] using hj.symm
      · right
        have hj' : m.entries[j]? = some p := by simpa [hij] using hj
        exact ⟨⟨j, hj'⟩, (key_ne_iff hi hj').2 (Ne.symm hij)⟩
    · rintro (rfl | ⟨⟨j, hj⟩, hne⟩)
      · exact ⟨i, by simp [hw]⟩
      · have hij := (key_ne_iff hi hj).1 hne
        exact ⟨j, by simp [hj, Ne.symm hij]⟩

lemma mem_swapRemove : p ∈ (m.swapRemove k).entries ↔ p ∈ m.entries ∧ p.1 ≠ k := by
  unfold swapRemove
  cases hi : m.getIndexOf k with
  | none =>
    refine ⟨fun hp => ⟨hp, ?_⟩, And.left⟩
    rintro rfl
    exact getIndexOf_eq_none_iff.1 hi (mem_keys_iff.2 ⟨p.2, hp⟩)
  | some i =>
    have hlt := lt_len_of_getIndexOf hi
    change p ∈ (m.swapRemoveIndex i).entries ↔ _
    rw [entries_swapRemoveIndex hlt, (swapRemove_perm hlt).mem_iff, mem_eraseIdx_iff_getElem?,
      mem_iff_getElem?]
    constructor
    · rintro ⟨j, hij, hj⟩
      exact ⟨⟨j, hj⟩, (key_ne_iff hi hj).2 hij⟩
    · rintro ⟨⟨j, hj⟩, hne⟩
      exact ⟨j, (key_ne_iff hi hj).1 hne, hj⟩

lemma mem_keys_insert {j : K} : j ∈ (m.insert k v).keys ↔ j = k ∨ j ∈ m.keys := by
  simp only [mem_keys_iff, mem_insert, Prod.mk.injEq]
  constructor
  · rintro ⟨w, ⟨rfl, rfl⟩ | ⟨hw, -⟩⟩
    · exact .inl rfl
    · exact .inr ⟨w, hw⟩
  · rintro (rfl | ⟨w, hw⟩)
    · exact ⟨v, .inl ⟨rfl, rfl⟩⟩
    · by_cases hjk : j = k
      · exact ⟨v, .inl ⟨hjk, rfl⟩⟩
      · exact ⟨w, .inr ⟨hw, hjk⟩⟩

lemma mem_keys_swapRemove {j : K} : j ∈ (m.swapRemove k).keys ↔ j ∈ m.keys ∧ j ≠ k := by
  simp only [mem_keys_iff, mem_swapRemove, exists_and_right]

lemma get_insert {k' : K} : (m.insert k v).get k' = if k' = k then some v else m.get k' := by
  apply Option.ext
  intro w
  rw [get_eq_some_iff, mem_insert, Prod.mk.injEq]
  split_ifs with hk
  · simp [hk, eq_comm]
  · simp [hk, get_eq_some_iff]

lemma getIndexOf_modifyIndex : (m.modifyIndex i f).getIndexOf k = m.getIndexOf k := by
  apply Option.ext
  intro j
  rw [getIndexOf_eq_some_iff, getIndexOf_eq_some_iff, modifyIndex, getElem?_modify]
  constructor
  · rintro ⟨w, hw⟩
    obtain ⟨p, hp, heq⟩ := Option.map_eq_some_iff.1 hw
    refine ⟨p.2, ?_⟩
    have hkey : p.1 = k := by
      split_ifs at heq <;> exact congrArg Prod.fst heq
    rw [hp, ← hkey]
  · rintro ⟨w, hw⟩
    rw [hw]
    split_ifs <;> exact ⟨_, rfl⟩

lemma map_get_modifyIndex {γ : Type} {g : V → γ} (hfg : ∀ v, g (f v) = g v) :
    ((m.modifyIndex i f).get k).map g = (m.get k).map g := by
  rw [get, get, getIndexOf_modifyIndex]
  cases m.getIndexOf k with
  | none => rfl
  | some j =>
    rw [Option.bind_eq_bind, Option.bind_some, Option.bind_some, values_getElem?, values_getElem?,
      modifyIndex, getElem?_modify]
    cases m.entries[j]? with
    | none => rfl
    | some p => by_cases hij : i = j <;> simp [hij, hfg]

end IndexMap

end IndexMaps
