import Nuah.Primitives

/-!
# Splitting shreds into erasure batches

`get_fec_set_offsets` (`ledger/src/shredder.rs`), with `usize` as 64 bits.
-/

namespace Nuah.Shredder

open List Option

variable {minChunkSize : Nat}

/-- The rounds of the iterator, with the offsets that they yield joined. -/
def fecSetOffsets (minChunkSize : Nat) : Nat → Nat → Nat → Option (List Nat)
  | _, 0, _ => some []
  | 0, _, _ => none
  | fuel + 1, numShreds, offset => do
    let numChunks := max (← checkedDiv numShreds minChunkSize) 1
    let chunkSize := ((← checkedAddU64 numShreds numChunks) - 1) / numChunks
    let rest ← fecSetOffsets minChunkSize fuel (← checkedSub numShreds chunkSize)
      (← checkedAddU64 offset chunkSize)
    some (replicate chunkSize offset ++ rest)

def getFecSetOffsets (numShreds minChunkSize : Nat) : Option (List Nat) :=
  fecSetOffsets minChunkSize numShreds numShreds 0

/-- The offset of each shred, for chunks of these sizes. -/
def chunkOffsets : Nat → List Nat → List Nat
  | _, [] => []
  | offset, size :: sizes => replicate size offset ++ chunkOffsets (offset + size) sizes

lemma chunkOffsets_sorted (offset : Nat) (sizes : List Nat) :
    (chunkOffsets offset sizes).length = sizes.sum ∧ (∀ o ∈ chunkOffsets offset sizes, offset ≤ o) ∧
      (chunkOffsets offset sizes).Pairwise (· ≤ ·) := by
  induction sizes generalizing offset with
  | nil => exact ⟨rfl, by simp [chunkOffsets], .nil⟩
  | cons size sizes ih =>
    obtain ⟨hlength, hge, hsorted⟩ := ih (offset + size)
    have hle : ∀ o ∈ chunkOffsets (offset + size) sizes, offset ≤ o := fun o ho =>
      (Nat.le_add_right _ _).trans (hge o ho)
    refine ⟨by simp [chunkOffsets, hlength], ?_, pairwise_append.2 ⟨?_, hsorted, ?_⟩⟩
    · exact forall_mem_append.2 ⟨fun o ho => (eq_of_mem_replicate ho).ge, hle⟩
    · exact pairwise_replicate_of_refl
    · exact fun o ho o' ho' => eq_of_mem_replicate ho ▸ hle o' ho'

lemma chunkSize_eq {q k r : Nat} (hr : r ≤ k) :
    (q * (k + 1) + r + (k + 1) - 1) / (k + 1) = q + min r 1 := by
  have hsum : q * (k + 1) + r + (k + 1) - 1 = r + k + q * (k + 1) := by omega
  rw [hsum, Nat.add_mul_div_right _ _ (Nat.succ_pos k), Nat.add_comm]
  congr 1
  rcases Nat.eq_zero_or_pos r with rfl | hpos
  · exact Nat.div_eq_of_lt (by omega)
  · rw [min_eq_right hpos]
    exact Nat.div_eq_of_lt_le (by omega) (by omega)

section

variable {q k r : Nat} (offset fuel : Nat) (hr : r ≤ k) (hmin : 0 < minChunkSize)
  (hchunks : max ((q * (k + 1) + r) / minChunkSize) 1 = k + 1)
  (hfits : offset + (q * (k + 1) + r) + (k + 1) ≤ u64Max)

include hr hmin hchunks hfits

lemma fecSetOffsets_succ (hq : 0 < q) :
    fecSetOffsets minChunkSize (fuel + 1) (q * (k + 1) + r) offset =
      (fecSetOffsets minChunkSize fuel (q * (k + 1) + r - (q + min r 1))
        (offset + (q + min r 1))).map (replicate (q + min r 1) offset ++ ·) := by
  have hmul : q ≤ q * (k + 1) := Nat.le_mul_of_pos_right q k.succ_pos
  have hdiv : checkedDiv (q * (k + 1) + r) minChunkSize = some _ := if_neg hmin.ne'
  have hadd := checkedAddU64_eq_some.2 ⟨(by omega : q * (k + 1) + r + (k + 1) ≤ u64Max), rfl⟩
  have hsub := checkedSub_eq_some.2 ⟨(by omega : q + min r 1 ≤ q * (k + 1) + r), rfl⟩
  have hoffset := checkedAddU64_eq_some.2 ⟨(by omega : offset + (q + min r 1) ≤ u64Max), rfl⟩
  rw [fecSetOffsets]
  · simp only [hdiv, bind_eq_bind, bind_some, hchunks, hadd, chunkSize_eq hr, hsub, hoffset]
    exact map_eq_bind.symm
  · omega

/-- With `k + 1` chunks to go, `r` of which are larger than `q` by one. -/
lemma fecSetOffsets_eq (hq : 0 < q) (hle : k = 0 ∨ minChunkSize ≤ q) :
    ∃ sizes, fecSetOffsets minChunkSize (fuel + (k + 1)) (q * (k + 1) + r) offset =
        some (chunkOffsets offset sizes) ∧
      sizes.sum = q * (k + 1) + r ∧ sizes.Pairwise (fun a b => b ≤ a ∧ a ≤ b + 1) ∧
      ∀ size ∈ sizes, q ≤ size ∧ size ≤ q + min r 1 := by
  rw [← Nat.add_assoc, fecSetOffsets_succ _ _ hr hmin hchunks hfits hq]
  induction k generalizing r offset with
  | zero =>
    obtain rfl : r = 0 := Nat.le_zero.1 hr
    refine ⟨[q], ?_, by simp, pairwise_singleton _ _, by simp⟩
    simp [fecSetOffsets, chunkOffsets]
  | succ k ih =>
    have hle := hle.resolve_left (Nat.succ_ne_zero k)
    have hmul : q * (k + 1 + 1) = q * (k + 1) + q := Nat.mul_succ _ _
    have hrest : q * (k + 1 + 1) + r - (q + min r 1) = q * (k + 1) + (r - 1) := by omega
    have hchunks' : max ((q * (k + 1) + (r - 1)) / minChunkSize) 1 = k + 1 := by
      have hdiv : (q * (k + 1 + 1) + r) / minChunkSize = k + 1 + 1 := by omega
      have hlt := Nat.lt_mul_of_div_lt (hdiv.trans_lt (Nat.lt_succ_self _)) hmin
      have hlo := Nat.mul_le_mul_left (k + 1) hle
      rw [Nat.succ_mul (k + 1 + 1)] at hlt
      rw [Nat.mul_comm _ q] at hlo
      rw [Nat.div_eq_of_lt_le (hlo.trans (Nat.le_add_right _ _)) (by omega)]
      exact max_eq_left k.succ_pos
    have hfits' : offset + (q + min r 1) + (q * (k + 1) + (r - 1)) + (k + 1) ≤ u64Max := by omega
    obtain ⟨sizes, hrun, htotal, hpair, hsizes⟩ := ih _ (by omega) hchunks' hfits' (.inr hle)
    refine ⟨(q + min r 1) :: sizes, ?_, by rw [sum_cons, htotal]; omega,
      pairwise_cons.2 ⟨fun size hsize => ?_, hpair⟩,
      forall_mem_cons.2 ⟨⟨Nat.le_add_right _ _, le_rfl⟩, fun size hsize => ?_⟩⟩
    · rw [hrest, ← Nat.add_assoc, fecSetOffsets_succ _ _ (by omega) hmin hchunks' hfits' hq, hrun]
      rfl
    all_goals
      have := hsizes size hsize
      omega

end

/-- As many chunks as there are smallest ones in the shreds keep all of them below two smallest. -/
lemma chunkSize_bounds {q k r : Nat} (hr : r ≤ k) (hmin : 0 < minChunkSize)
    (hchunks : (q * (k + 1) + r) / minChunkSize = k + 1) :
    minChunkSize ≤ q ∧ q + min r 1 < 2 * minChunkSize := by
  have hlo := (Nat.le_div_iff_mul_le hmin).1 hchunks.ge
  have hhi := Nat.lt_mul_of_div_lt (hchunks.trans_lt (Nat.lt_succ_self _)) hmin
  rw [Nat.succ_mul (k + 1)] at hhi
  rw [Nat.mul_comm q] at hlo hhi
  constructor <;> by_contra! hlt
  · have := Nat.mul_le_mul_left (k + 1) hlt
    rw [Nat.mul_succ] at this
    omega
  · have hq : minChunkSize + (minChunkSize - min r 1) ≤ q := by omega
    have hprod := Nat.mul_le_mul_left (k + 1) hq
    have : _ ≤ (k + 1) * _ := Nat.le_mul_of_pos_left (minChunkSize - min r 1) k.succ_pos
    rw [Nat.mul_add] at hprod
    omega

/-- As long as the sum of the shreds and the chunks fits, the shreds are split evenly. -/
theorem getFecSetOffsets_even {numShreds : Nat} (hmin : 0 < minChunkSize)
    (hfits : numShreds + max (numShreds / minChunkSize) 1 ≤ u64Max) :
    ∃ sizes offsets, getFecSetOffsets numShreds minChunkSize = some offsets ∧
      offsets = chunkOffsets 0 sizes ∧ offsets.length = numShreds ∧ offsets.Pairwise (· ≤ ·) ∧
      sizes.Pairwise (fun a b => b ≤ a ∧ a ≤ b + 1) ∧ ∀ size ∈ sizes, 0 < size ∧
        (minChunkSize ≤ numShreds → minChunkSize ≤ size ∧ size < 2 * minChunkSize) := by
  rcases Nat.eq_zero_or_pos numShreds with rfl | hpos
  · exact ⟨[], [], rfl, rfl, rfl, .nil, .nil, by simp⟩
  obtain ⟨k, hk⟩ := Nat.exists_eq_succ_of_ne_zero (by omega : max (numShreds / minChunkSize) 1 ≠ 0)
  have hkn : k + 1 ≤ numShreds := hk.ge.trans <| max_le (Nat.div_le_self _ _) hpos
  have hn : _ = numShreds := Nat.div_add_mod' numShreds (k + 1)
  have hr := Nat.le_of_lt_succ (Nat.mod_lt numShreds k.succ_pos)
  have hq := Nat.div_pos hkn k.succ_pos
  obtain ⟨fuel, hfuel⟩ := Nat.exists_eq_add_of_le' hkn
  generalize numShreds / (k + 1) = q, numShreds % (k + 1) = r at hn hr hq
  have hbounds : minChunkSize ≤ numShreds → minChunkSize ≤ q ∧ q + min r 1 < 2 * minChunkSize := by
    intro hle
    have := Nat.div_pos hle hmin
    exact chunkSize_bounds hr hmin (by rw [hn]; omega)
  have hle : k = 0 ∨ minChunkSize ≤ q := by
    rcases Nat.lt_or_ge numShreds minChunkSize with hlt | hge
    · rw [Nat.div_eq_of_lt hlt] at hk
      exact .inl (by omega)
    · exact .inr (hbounds hge).1
  obtain ⟨sizes, hrun, hsum, hpair, hsizes⟩ :=
    fecSetOffsets_eq 0 fuel hr hmin (by rw [hn, hk]) (by omega) hq hle
  rw [hn, ← hfuel] at hrun
  have hsorted := chunkOffsets_sorted 0 sizes
  refine ⟨sizes, _, hrun, rfl, hsorted.1.trans (hsum.trans hn), hsorted.2.2, hpair, ?_⟩
  intro size hsize
  have := hsizes size hsize
  exact ⟨by omega, fun hge => by have := hbounds hge; omega⟩

theorem getFecSetOffsets_seven : ∃ sizes, getFecSetOffsets 7 2 = some (chunkOffsets 0 sizes) ∧
    ∀ size ∈ sizes, 2 ≤ size ∧ size < 2 * 2 := by
  obtain ⟨sizes, _, heq, rfl, -, -, -, hsizes⟩ :=
    getFecSetOffsets_even (by decide : 0 < 2) (by decide : 7 + max (7 / 2) 1 ≤ u64Max)
  exact ⟨sizes, heq, fun size hsize => (hsizes size hsize).2 (by decide)⟩

/-- With as many chunks as shreds, their sum overflows. -/
theorem getFecSetOffsets_overflows : getFecSetOffsets (2 ^ 63 + 1) 1 = none := by
  decide +kernel

end Nuah.Shredder
