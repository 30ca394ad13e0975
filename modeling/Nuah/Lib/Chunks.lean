import Mathlib

/-!
# Lists cut into runs of one length

A list cut from its front into runs of `n` entries, the last of them possibly shorter. Cutting the
runs of a list into runs of runs is cutting the list itself at the coarser length.
-/

namespace Chunks

open List

variable {α β : Type}

/-- The runs of `n` entries; none if `n` is zero. -/
def chunks (n : Nat) (l : List α) : List (List α) :=
  if _h : l = [] ∨ n = 0 then [] else l.take n :: chunks n (l.drop n)
termination_by l.length
decreasing_by
  rw [not_or] at _h
  have := length_pos_iff.2 _h.1
  rw [length_drop]
  omega

/-- The number of runs of `n` entries that `len` entries make. -/
def count (len n : Nat) : Nat := (len + n - 1) / n

variable {n m : Nat} {l : List α}

@[simp]
lemma chunks_nil : chunks n ([] : List α) = [] := by
  rw [chunks, dif_pos (.inl rfl)]

lemma chunks_of_ne_nil (hn : 0 < n) (hl : l ≠ []) :
    chunks n l = l.take n :: chunks n (l.drop n) := by
  rw [chunks, dif_neg]
  exact not_or.2 ⟨hl, hn.ne'⟩

lemma chunks_induction {motive : List α → Prop} (hn : 0 < n) (nil : motive [])
    (cut : ∀ l, l ≠ [] → motive (l.drop n) → motive l) (l : List α) : motive l := by
  induction hlen : l.length using Nat.strong_induction_on generalizing l with
  | h len ih =>
    by_cases hl : l = []
    · exact hl ▸ nil
    · refine cut l hl (ih (l.drop n).length ?_ _ rfl)
      have := length_pos_iff.2 hl
      rw [length_drop]
      omega

lemma chunks_map (hn : 0 < n) (f : α → β) (l : List α) :
    chunks n (l.map f) = (chunks n l).map (List.map f) := by
  induction l using chunks_induction hn with
  | nil => rw [map_nil, chunks_nil, chunks_nil, map_nil]
  | cut l hl ih =>
    have hmap : l.map f ≠ [] := mt map_eq_nil_iff.1 hl
    rw [chunks_of_ne_nil hn hmap, chunks_of_ne_nil hn hl, map_cons, map_take, ← ih, map_drop]

lemma count_zero : count 0 n = 0 := by
  unfold count
  rcases n.eq_zero_or_pos with rfl | hn
  · rfl
  · exact Nat.div_eq_of_lt (by omega)

section

variable (hn : 0 < n)

include hn

lemma count_of_pos {len : Nat} (hlen : 0 < len) : count len n = count (len - n) n + 1 := by
  unfold count
  rcases Nat.le_total n len with h | h
  · rw [show len + n - 1 = len - n + n - 1 + n by omega, Nat.add_div_right _ hn]
  · rw [Nat.sub_eq_zero_of_le h, Nat.zero_add, Nat.div_eq_of_lt (by omega : n - 1 < n),
      show len + n - 1 = len - 1 + n by omega, Nat.add_div_right _ hn,
      Nat.div_eq_of_lt (by omega : len - 1 < n)]

lemma length_chunks (l : List α) : (chunks n l).length = count l.length n := by
  induction l using chunks_induction hn with
  | nil => rw [chunks_nil, length_nil, length_nil, count_zero]
  | cut l hl ih =>
    rw [chunks_of_ne_nil hn hl, length_cons, ih, length_drop, count_of_pos hn (length_pos_iff.2 hl)]

lemma chunks_eq_map_range (l : List α) :
    chunks n l = (List.range (count l.length n)).map fun i => (l.drop (i * n)).take n := by
  induction l using chunks_induction hn with
  | nil => rw [chunks_nil, length_nil, count_zero, range_zero, map_nil]
  | cut l hl ih =>
    rw [chunks_of_ne_nil hn hl, count_of_pos hn (length_pos_iff.2 hl), range_succ_eq_map,
      map_cons, Nat.zero_mul, drop_zero, ih, length_drop, map_map]
    congr 1
    refine map_congr_left fun i _ => ?_
    rw [Function.comp_apply, drop_drop, Nat.succ_mul, Nat.add_comm]

lemma le_count_of_mul_le {len k : Nat} (h : k * n ≤ len) : k ≤ count len n :=
  (Nat.le_div_iff_mul_le hn).2 (by omega)

lemma mul_lt_of_lt_count {len i : Nat} (h : i < count len n) : i * n < len := by
  have hle := (Nat.le_div_iff_mul_le hn).1 (Nat.succ_le_of_lt h)
  rw [Nat.succ_mul] at hle
  omega

end

lemma count_lt {len : Nat} (hn : 2 ≤ n) (hlen : 2 ≤ len) : count len n < len := by
  unfold count
  rw [Nat.div_lt_iff_lt_mul (by omega)]
  have hdouble : len * 2 ≤ len * n := Nat.mul_le_mul_left _ hn
  have hdouble' : 2 * n ≤ len * n := Nat.mul_le_mul_right _ hlen
  omega

lemma chunks_take (hn : 0 < n) (k : Nat) (l : List α) :
    chunks n (l.take (k * n)) = (chunks n l).take k := by
  induction k generalizing l with
  | zero => rw [Nat.zero_mul, take_zero, chunks_nil, take_zero]
  | succ k ih =>
    by_cases hl : l = []
    · rw [hl, take_nil, chunks_nil, take_nil]
    · have hpos := length_pos_iff.2 hl
      have htake : l.take ((k + 1) * n) ≠ [] := by
        rw [← length_pos_iff, length_take, Nat.succ_mul]
        omega
      have hn' : min n ((k + 1) * n) = n := min_eq_left (Nat.le_mul_of_pos_left n k.succ_pos)
      have hsub : (k + 1) * n - n = k * n := by rw [Nat.succ_mul, Nat.add_sub_cancel]
      rw [chunks_of_ne_nil hn htake, chunks_of_ne_nil hn hl, take_succ_cons, take_take,
        hn', drop_take, hsub, ih]

lemma chunks_drop (hn : 0 < n) (k : Nat) (l : List α) :
    chunks n (l.drop (k * n)) = (chunks n l).drop k := by
  induction k generalizing l with
  | zero => rw [Nat.zero_mul, drop_zero, drop_zero]
  | succ k ih =>
    by_cases hl : l = []
    · rw [hl, drop_nil, chunks_nil, drop_nil]
    · rw [chunks_of_ne_nil hn hl, drop_succ_cons, ← ih, drop_drop, Nat.succ_mul, Nat.add_comm n]

lemma chunks_chunks (hn : 0 < n) (hm : 0 < m) (l : List α) :
    chunks m (chunks n l) = (chunks (m * n) l).map (chunks n) := by
  induction l using chunks_induction (Nat.mul_pos hm hn) with
  | nil => rw [chunks_nil, chunks_nil, chunks_nil, map_nil]
  | cut l hl ih =>
    have hne : chunks n l ≠ [] := by
      rw [chunks_of_ne_nil hn hl]
      exact cons_ne_nil _ _
    rw [chunks_of_ne_nil hm hne, chunks_of_ne_nil (Nat.mul_pos hm hn) hl, map_cons,
      chunks_take hn, ← chunks_drop hn, ih]

/-- One round: every run of `n` entries is reduced to one. -/
def level (f : List α → α) (n : Nat) (l : List α) : List α := (chunks n l).map f

@[simp]
lemma level_nil (f : List α → α) : level f n [] = [] := by
  rw [level, chunks_nil, map_nil]

lemma level_of_ne_nil (hn : 0 < n) (hl : l ≠ []) (f : List α → α) :
    level f n l = f (l.take n) :: level f n (l.drop n) := by
  rw [level, chunks_of_ne_nil hn hl, map_cons]
  rfl

lemma length_level (hn : 0 < n) (f : List α → α) (l : List α) :
    (level f n l).length = count l.length n := by
  rw [level, length_map, length_chunks hn]

lemma length_level_lt (hn : 2 ≤ n) (f : List α → α) (h : 2 ≤ (level f n l).length) :
    (level f n l).length < l.length := by
  rw [length_level (by omega)] at h ⊢
  have hlen := (Nat.le_div_iff_mul_le (by omega)).1 h
  exact count_lt hn (by omega)

lemma level_level (hn : 0 < n) (hm : 0 < m) (f g : List α → α) (l : List α) :
    level g m (level f n l) = level (fun run => g (level f n run)) (m * n) l := by
  unfold level
  rw [chunks_map hm, chunks_chunks hn hm, map_map, map_map]
  rfl

end Chunks
