import Nuah.AccountsHash
import Nuah.Lib.Chunks
import Nuah.Lib.IndexMaps

/-!
# Merkle roots over sliced hashes

Read through the cursor, the slices are the joined list; what a chunk yields is then a run of that
list, reduced; and three levels of short runs are one level of long ones.
-/

namespace Nuah.Proofs

open List hiding extract count
open Nuah.AccountsHasher CumulativeOffsets Chunks IndexMaps Option

variable {start n : Nat} {threeLevel : Bool}

variable {i : Nat} {T : Type} {cursor : SliceCursor T} {hashes whole : List T}
  {getHashSlice : Nat → Option (List T)}

namespace Offsets

variable {lens : List Nat}

lemma take_sum_add_le {j len : Nat} (hij : i < j) (hlen : lens[i]? = some len) :
    (lens.take i).sum + len ≤ (lens.take j).sum := by
  obtain ⟨hi, rfl⟩ := List.getElem?_eq_some_iff.1 hlen
  rw [← sum_take_succ lens i hi]
  exact List.Sublist.sum_le_sum (take_sublist_take_left hij) fun _ _ => Nat.zero_le _

lemma exists_slice (h : start < lens.sum) :
    ∃ i len, lens[i]? = some len ∧ (lens.take i).sum ≤ start ∧ start < (lens.take i).sum + len := by
  induction lens generalizing start with
  | nil => cases h
  | cons len lens ih =>
    rw [sum_cons] at h
    rcases Nat.lt_or_ge start len with hlt | hge
    · exact ⟨0, len, rfl, Nat.zero_le _, by simpa using hlt⟩
    · obtain ⟨i, len', hlen, hle, hlt⟩ := ih (show start - len < lens.sum by omega)
      refine ⟨i + 1, len', hlen, ?_, ?_⟩ <;> rw [take_succ_cons, sum_cons] <;> omega

lemma new_concat (lens : List Nat) (len : Nat) :
    new (lens ++ [len]) = (new lens).push (len, lens.length) := by
  unfold new
  rw [zipIdx_append, foldl_append, Nat.zero_add]
  rfl

/-- The offset of the slice with this place, if it holds something. -/
def IsOffset (lens : List Nat) (o : CumulativeOffset) : Prop :=
  ∃ len, lens[o.index.1]? = some len ∧ 0 < len ∧ o.startOffset = (lens.take o.index.1).sum

structure Describes (offsets : CumulativeOffsets) (lens : List Nat) : Prop where
  total : offsets.totalCount = lens.sum
  offset : ∀ o ∈ offsets.cumulativeOffsets, IsOffset lens o
  complete : ∀ i len, lens[i]? = some len → 0 < len →
    ⟨(i, i), (lens.take i).sum⟩ ∈ offsets.cumulativeOffsets
  sorted : offsets.cumulativeOffsets.Pairwise fun o o' => o.startOffset < o'.startOffset

lemma IsOffset.append {o : CumulativeOffset} (h : IsOffset lens o) (len : Nat) :
    IsOffset (lens ++ [len]) o := by
  obtain ⟨len', hlen, hpos, hstart⟩ := h
  refine ⟨len', getElem?_concat_eq_some.2 (.inl hlen), hpos, ?_⟩
  rw [take_append_of_le_length (List.getElem?_eq_some_iff.1 hlen).1.le, hstart]

lemma describes_new (lens : List Nat) : Describes (new lens) lens := by
  induction lens using reverseRecOn with
  | nil =>
    refine ⟨rfl, fun o h => (not_mem_nil h).elim, fun i len h => ?_, List.Pairwise.nil⟩
    cases h
  | append_singleton lens len ih =>
    have hsum : (lens ++ [len]).sum = lens.sum + len := by simp
    rw [new_concat]
    simp only [push]
    by_cases hpos : 0 < len
    · rw [if_pos hpos]
      have hnew : IsOffset (lens ++ [len])
          ⟨(lens.length, lens.length), (new lens).totalCount⟩ := by
        refine ⟨len, getElem?_concat_length, hpos, ?_⟩
        rw [ih.total, take_left]
      refine ⟨?_, ?_, ?_, ?_⟩
      · rw [hsum, ← ih.total]
      · exact forall_mem_append.2 ⟨fun o ho => (ih.offset o ho).append len,
          forall_mem_singleton.2 hnew⟩
      · intro i len' hlen hpos'
        rcases getElem?_concat_eq_some.1 hlen with hlen | ⟨rfl, rfl⟩
        · rw [take_append_of_le_length (List.getElem?_eq_some_iff.1 hlen).1.le]
          exact mem_append_left _ (ih.complete i len' hlen hpos')
        · rw [take_left, ← ih.total]
          exact mem_append_right _ (mem_singleton_self _)
      · refine pairwise_append.2 ⟨ih.sorted, pairwise_singleton _ _, ?_⟩
        intro o ho o' ho'
        obtain ⟨len', hlen, hpos', hstart⟩ := ih.offset o ho
        have hle := take_sum_add_le (List.getElem?_eq_some_iff.1 hlen).1 hlen
        rw [take_length] at hle
        rw [mem_singleton.1 ho', hstart]
        change _ < (new lens).totalCount
        rw [ih.total]
        omega
    · rw [if_neg hpos]
      refine ⟨?_, fun o ho => (ih.offset o ho).append len, ?_, ih.sorted⟩
      · rw [hsum, ih.total]
        omega
      · intro i len' hlen hpos'
        rcases getElem?_concat_eq_some.1 hlen with hlen | ⟨rfl, rfl⟩
        · rw [take_append_of_le_length (List.getElem?_eq_some_iff.1 hlen).1.le]
          exact ih.complete i len' hlen hpos'
        · exact absurd hpos' hpos

variable {offsets : CumulativeOffsets}

lemma Describes.findIndex (h : Describes offsets lens) (hstart : start < lens.sum) :
    ∃ index o, offsets.findIndex start = some index ∧ offsets.cumulativeOffsets[index]? = some o ∧
      o.startOffset ≤ start ∧
      ∀ o' ∈ offsets.cumulativeOffsets, o'.startOffset ≤ start → o'.startOffset ≤ o.startOffset := by
  obtain ⟨i, len, hlen, hle, hlt⟩ := exists_slice hstart
  have hmem := h.complete i len hlen (by omega)
  obtain ⟨j, hj⟩ := mem_iff_getElem?.1 hmem
  have hordered : BinarySearch.Ordered (fun o : CumulativeOffset => compare o.startOffset start)
      offsets.cumulativeOffsets := by
    refine h.sorted.imp fun {o o'} hlt => ?_
    simp only [compare_lt_iff_lt, compare_gt_iff_gt]
    omega
  have hempty : offsets.cumulativeOffsets.isEmpty = false :=
    isEmpty_eq_false_iff_exists_mem.2 ⟨_, hmem⟩
  unfold CumulativeOffsets.findIndex
  rw [hempty, if_neg Bool.false_ne_true]
  rcases BinarySearch.search_spec hordered with ⟨index, o, hsearch, ho, heq⟩ | ⟨index, hsearch, hparts⟩
  · rw [hsearch]
    have heq' : o.startOffset = start := compare_eq_iff_eq.1 heq
    exact ⟨index, o, rfl, ho, heq'.le, fun o' _ hle => heq'.symm ▸ hle⟩
  · rw [hsearch]
    -- The slice of the index has an offset that is not above it, so some offset is smaller.
    have hji : j < index := by
      by_contra hge
      have := compare_gt_iff_gt.1 (hparts.after j _ (Nat.le_of_not_lt hge) hj)
      simp only at this
      omega
    have hlt' : index - 1 < offsets.cumulativeOffsets.length := by
      have := hparts.le
      omega
    refine ⟨index - 1, offsets.cumulativeOffsets[index - 1], ?_, getElem?_eq_getElem hlt', ?_, ?_⟩
    · exact checkedSub_eq_some.2 ⟨by omega, rfl⟩
    · exact (compare_lt_iff_lt.1 (hparts.before (index - 1) _ (by omega)
        (getElem?_eq_getElem hlt'))).le
    · intro o' ho' hle'
      obtain ⟨k, hk⟩ := mem_iff_getElem?.1 ho'
      have hki : k < index := by
        by_contra hge
        have := compare_gt_iff_gt.1 (hparts.after k _ (Nat.le_of_not_lt hge) hk)
        omega
      obtain ⟨hk', rfl⟩ := List.getElem?_eq_some_iff.1 hk
      rcases Nat.lt_or_ge k (index - 1) with hlt | hge
      · exact (pairwise_iff_getElem.1 h.sorted k (index - 1) hk' hlt' hlt).le
      · obtain rfl : k = index - 1 := by omega
        exact le_rfl

lemma Describes.find (h : Describes offsets lens) (hstart : start < lens.sum) :
    ∃ o len, offsets.find start = some (start - o.startOffset, o) ∧
      lens[o.index.1]? = some len ∧ o.startOffset = (lens.take o.index.1).sum ∧
      o.startOffset ≤ start ∧ start < o.startOffset + len := by
  obtain ⟨index, o, hfind, ho, hle, hmax⟩ := h.findIndex hstart
  obtain ⟨len, hlen, hpos, hoffset⟩ := h.offset o (mem_of_getElem? ho)
  refine ⟨o, len, ?_, hlen, hoffset, hle, ?_⟩
  · unfold CumulativeOffsets.find
    rw [hfind]
    simp only [bind_eq_bind, bind_some, ho]
    rw [checkedSub_eq_some.2 ⟨hle, rfl⟩]
    rfl
  · obtain ⟨i, len', hlen', hle', hlt'⟩ := exists_slice hstart
    have hmax' := hmax _ (h.complete i len' hlen' (by omega)) hle'
    simp only at hmax'
    rcases Nat.lt_trichotomy o.index.1 i with hlt | heq | hgt
    · have := take_sum_add_le hlt hlen
      omega
    · rw [heq] at hlen hoffset
      obtain rfl : len' = len := mem_unique hlen' hlen
      omega
    · have := take_sum_add_le hgt hlen'
      omega

end Offsets

lemma getSlice_eq {raw : List (List T)} (hstart : start < raw.flatten.length) :
    ∃ i slice k, raw[i]? = some slice ∧ (raw.take i).flatten.length + k = start ∧ k < slice.length ∧
      (fromRaw raw).getSlice raw start = some (slice.drop k) := by
  have hdescribes := Offsets.describes_new (raw.map length)
  rw [length_flatten] at hstart
  obtain ⟨o, len, hfind, hlen, hoffset, hle, hlt⟩ := hdescribes.find hstart
  rw [getElem?_map, map_eq_some_iff] at hlen
  obtain ⟨slice, hslice, rfl⟩ := hlen
  rw [← map_take, ← length_flatten] at hoffset
  refine ⟨o.index.1, slice, start - o.startOffset, hslice, by omega, by omega, ?_⟩
  unfold getSlice fromRaw
  rw [hfind]
  simp only [bind_eq_bind, bind_some, extract, hslice]
  rw [if_pos (by omega)]

lemma totalCount_fromRaw (raw : List (List T)) : (fromRaw raw).totalCount = raw.flatten.length := by
  rw [length_flatten]
  exact (Offsets.describes_new _).total

section Reading

variable {hashv : List Hash → Hash} {borrow : T → Hash}

/-- At every index of the list a part of it is fetched, and not an empty one. -/
def Fetches (getHashSlice : Nat → Option (List T)) (whole : List T) : Prop :=
  ∀ i < whole.length, ∃ data, getHashSlice i = some data ∧ data ≠ [] ∧ data <+: whole.drop i

def Reads (whole : List T) (i : Nat) (cursor : SliceCursor T) : Prop :=
  cursor.data.drop cursor.dataIndex <+: whole.drop i

lemma fetches_getSlice (raw : List (List T)) :
    Fetches ((fromRaw raw).getSlice raw) raw.flatten := by
  intro start hstart
  obtain ⟨i, slice, k, hslice, hk, hlt, hget⟩ := getSlice_eq hstart
  refine ⟨slice.drop k, hget, ?_, (raw.drop (i + 1)).flatten, ?_⟩
  · rw [← length_pos_iff, length_drop]
    omega
  · obtain ⟨hi, rfl⟩ := List.getElem?_eq_some_iff.1 hslice
    conv_rhs => rw [← take_append_drop i raw, drop_eq_getElem_cons hi, flatten_append,
      flatten_cons, ← hk, drop_length_add_append, drop_append_of_le_length hlt.le]

lemma nextItem_eq (hfetch : Fetches getHashSlice whole) (hreads : Reads whole i cursor) {item : T}
    (hitem : whole[i]? = some item) :
    ∃ cursor', nextItem getHashSlice i cursor = some (item, cursor') ∧
      Reads whole (i + 1) cursor' := by
  obtain ⟨hi, rfl⟩ := List.getElem?_eq_some_iff.1 hitem
  -- Whether it was fetched or not, the slice holds the next entry now.
  have hready : ∃ ready : SliceCursor T, ready.dataIndex < ready.data.length ∧
      Reads whole i ready ∧
      refresh getHashSlice i cursor = some ready := by
    unfold refresh
    by_cases hend : cursor.data.length ≤ cursor.dataIndex
    · obtain ⟨data, hdata, hne, hprefix⟩ := hfetch i hi
      refine ⟨⟨data, 0⟩, length_pos_iff.2 hne, hprefix, ?_⟩
      rw [if_pos hend, hdata, map_some]
    · exact ⟨cursor, Nat.lt_of_not_le hend, hreads, if_neg hend⟩
  obtain ⟨ready, hlt, hprefix, heq⟩ := hready
  unfold Reads at hprefix
  rw [drop_eq_getElem_cons hlt, drop_eq_getElem_cons hi, cons_prefix_cons] at hprefix
  refine ⟨⟨ready.data, ready.dataIndex + 1⟩, ?_, hprefix.2⟩
  unfold nextItem
  rw [heq]
  simp [getElem?_eq_getElem hlt, hprefix.1]

lemma hashItems_eq (hfetch : Fetches getHashSlice whole) (borrow : T → Hash) (count : Nat)
    (hreads : Reads whole i cursor) (hle : i + count ≤ whole.length) (hasher : List Hash) :
    ∃ cursor', hashItems borrow getHashSlice count i cursor hasher =
        some (hasher ++ ((whole.map borrow).drop i).take count, cursor') ∧
      Reads whole (i + count) cursor' := by
  induction count generalizing i cursor hasher with
  | zero =>
    refine ⟨cursor, ?_, hreads⟩
    rw [take_zero, append_nil]
    rfl
  | succ count ih =>
    have hi : i < whole.length := by omega
    obtain ⟨next, hnext, hreads'⟩ := nextItem_eq hfetch hreads (getElem?_eq_getElem hi)
    obtain ⟨cursor', hrest, hreads''⟩ := ih hreads' (by omega) (hasher ++ [borrow whole[i]])
    refine ⟨cursor', ?_, by rwa [Nat.add_right_comm] at hreads''⟩
    have hcons : (whole.map borrow).drop i = borrow whole[i] :: (whole.map borrow).drop (i + 1) := by
      rw [drop_eq_getElem_cons (by rwa [length_map]), getElem_map]
    rw [hcons, take_succ_cons, append_cons]
    simp [hashItems, hnext, hrest]

lemma drop_take_min (l : List Hash) (start n : Nat) :
    (l.take (min (start + n) l.length)).drop start = (l.drop start).take n := by
  rw [drop_take]
  refine (take_eq_take_iff).2 ?_
  rw [length_drop]
  omega

variable {fanout endIndex : Nat}

lemma hashRuns_eq (hfetch : Fetches getHashSlice whole) (hashv : List Hash → Hash)
    (borrow : T → Hash) (hfanout : 0 < fanout) (hend : endIndex ≤ whole.length) (rounds : Nat)
    (hreads : Reads whole i cursor) (hi : i ≤ endIndex) (hrun : rounds = 0 ∨ i < endIndex)
    (hasherJ : List Hash) :
    ∃ cursor', hashRuns hashv borrow getHashSlice fanout endIndex rounds i cursor hasherJ =
        some (min endIndex (i + rounds * fanout), hasherJ ++ level hashv fanout
          ((((whole.map borrow).take endIndex).drop i).take (rounds * fanout)), cursor') ∧
      Reads whole (min endIndex (i + rounds * fanout)) cursor' := by
  induction rounds generalizing i cursor hasherJ with
  | zero =>
    have hmin : min endIndex (i + 0 * fanout) = i := by omega
    rw [hmin, Nat.zero_mul, take_zero]
    refine ⟨cursor, ?_, hreads⟩
    rw [level_nil, append_nil]
    rfl
  | succ rounds ih =>
    have hlt : i < endIndex := hrun.resolve_left (Nat.succ_ne_zero rounds)
    set rest := ((whole.map borrow).take endIndex).drop i with hrest
    have hlength : rest.length = endIndex - i := by
      rw [hrest, length_drop, length_take, length_map]
      omega
    obtain ⟨next, hnext, hreads'⟩ := hashItems_eq hfetch borrow
      (min (endIndex - i) fanout) hreads (by omega) []
    have hrun : ((whole.map borrow).drop i).take (min (endIndex - i) fanout) = rest.take fanout := by
      rw [hrest, drop_take, take_take, Nat.min_comm]
    -- The first run, and the runs of the rest.
    have hlevel : level hashv fanout (rest.take ((rounds + 1) * fanout)) =
        hashv (rest.take fanout) ::
          level hashv fanout ((rest.drop fanout).take (rounds * fanout)) := by
      have hne : rest.take ((rounds + 1) * fanout) ≠ [] := by
        rw [← length_pos_iff, length_take, hlength, Nat.succ_mul]
        omega
      have hsub : (rounds + 1) * fanout - fanout = rounds * fanout := by
        rw [Nat.succ_mul, Nat.add_sub_cancel]
      have hmin : min fanout ((rounds + 1) * fanout) = fanout :=
        min_eq_left (Nat.le_mul_of_pos_left _ rounds.succ_pos)
      rw [level_of_ne_nil hfanout hne, take_take, hmin, drop_take, hsub]
    rw [nil_append, hrun] at hnext
    simp only [hashRuns, hnext, bind_eq_bind, bind_some]
    rw [hlevel, Nat.succ_mul]
    by_cases hdone : endIndex ≤ i + min (endIndex - i) fanout
    · have hnil : rest.drop fanout = [] := by
        rw [drop_eq_nil_iff]
        omega
      have hindex : min endIndex (i + (rounds * fanout + fanout)) = endIndex := by omega
      have hindex' : i + min (endIndex - i) fanout = endIndex := by omega
      rw [if_pos hdone, hnil, take_nil, level_nil, hindex]
      rw [hindex'] at hreads' ⊢
      exact ⟨next, rfl, hreads'⟩
    · have hstep : i + min (endIndex - i) fanout = i + fanout := by omega
      rw [if_neg hdone]
      rw [hstep] at hreads' hdone ⊢
      obtain ⟨cursor', hrest', hreads''⟩ := ih hreads' (by omega) (.inr (Nat.lt_of_not_le hdone))
        (hasherJ ++ [hashv (rest.take fanout)])
      have hindex : i + (rounds * fanout + fanout) = i + fanout + rounds * fanout := by omega
      rw [hindex]
      refine ⟨cursor', ?_, hreads''⟩
      rw [hrest', hrest, drop_drop, append_assoc, singleton_append]

def hashRun (hashv : List Hash → Hash) (fanout : Nat) (run : List Hash) : Hash :=
  hashv (level hashv fanout run)

lemma hashRunsOfRuns_eq (hfetch : Fetches getHashSlice whole) (hashv : List Hash → Hash)
    (borrow : T → Hash) (hfanout : 0 < fanout) (hend : endIndex ≤ whole.length) {fuel : Nat}
    (hreads : Reads whole i cursor) (hfuel : endIndex - i ≤ fuel) (hasher : List Hash) :
    hashRunsOfRuns hashv borrow getHashSlice fanout endIndex fuel i cursor hasher =
      some (hasher ++ level (hashRun hashv fanout) (fanout * fanout)
        (((whole.map borrow).take endIndex).drop i)) := by
  have hdone : ∀ {i}, ¬i < endIndex → ((whole.map borrow).take endIndex).drop i = [] := by
    intro i hi
    rw [drop_eq_nil_iff, length_take]
    omega
  induction fuel generalizing i cursor hasher with
  | zero =>
    have hi : ¬i < endIndex := by omega
    rw [hashRunsOfRuns, if_neg hi, hdone hi, level_nil, append_nil]
  | succ fuel ih =>
    by_cases hi : i < endIndex
    · have hsquare : 0 < fanout * fanout := Nat.mul_pos hfanout hfanout
      obtain ⟨next, hnext, hreads'⟩ := hashRuns_eq hfetch hashv borrow hfanout hend fanout
        hreads hi.le (.inr hi) []
      have hne : ((whole.map borrow).take endIndex).drop i ≠ [] := by
        rw [← length_pos_iff, length_drop, length_take, length_map]
        omega
      have hrest : ((whole.map borrow).take endIndex).drop (min endIndex (i + fanout * fanout)) =
          (((whole.map borrow).take endIndex).drop i).drop (fanout * fanout) := by
        rw [drop_drop]
        rcases Nat.le_total endIndex (i + fanout * fanout) with hle | hle
        · rw [min_eq_left hle, hdone (Nat.lt_irrefl _), hdone (Nat.not_lt.2 hle)]
        · rw [min_eq_right hle]
      rw [hashRunsOfRuns, if_pos hi]
      simp only [hnext, bind_eq_bind, bind_some, nil_append]
      rw [ih hreads' (by omega), hrest, level_of_ne_nil hsquare hne, append_assoc, singleton_append]
      rfl
    · rw [hashRunsOfRuns, if_neg hi, hdone hi, level_nil, append_nil]

lemma divCeil_eq {x y : Nat} (hy : 0 < y) : divCeil x y = some (count x y) := by
  unfold divCeil count
  rw [if_neg hy.ne']
  congr 1
  have hx : x = x % y + x / y * y := by rw [Nat.mul_comm, Nat.mod_add_div]
  have hmod := Nat.mod_lt x hy
  split_ifs with hrem
  · have hsum : x + y - 1 = x % y - 1 + (x / y + 1) * y := by
      rw [Nat.succ_mul]
      omega
    rw [hsum, Nat.add_mul_div_right _ _ hy, Nat.div_eq_of_lt (by omega : x % y - 1 < y), Nat.zero_add]
  · have hsum : x + y - 1 = y - 1 + x / y * y := by omega
    rw [hsum, Nat.add_mul_div_right _ _ hy, Nat.div_eq_of_lt (by omega : y - 1 < y), Nat.zero_add]

lemma hashChunk_eq (hfetch : Fetches getHashSlice whole) (hashv : List Hash → Hash)
    (borrow : T → Hash) (hfanout : 0 < fanout) {data : List T} (hdata : data <+: whole)
    (hi : i * n ≤ whole.length) :
    hashChunk hashv borrow getHashSlice whole.length fanout n threeLevel data i =
      some (bif threeLevel then
          hashv (level (hashRun hashv fanout) (fanout * fanout)
            (((whole.map borrow).drop (i * n)).take n))
        else hashv (((whole.map borrow).drop (i * n)).take n)) := by
  have hreads : Reads whole (i * n) ⟨data, i * n⟩ := hdata.drop (i * n)
  have hend : min (i * n + n) whole.length ≤ whole.length := min_le_right _ _
  have hchunk := drop_take_min (whole.map borrow) (i * n) n
  rw [length_map] at hchunk
  unfold hashChunk
  cases threeLevel with
  | true =>
    simp [hashRunsOfRuns_eq hfetch hashv borrow hfanout hend hreads le_rfl, hchunk]
  | false =>
    obtain ⟨cursor, hitems, -⟩ := hashItems_eq hfetch borrow
      (min (i * n + n) whole.length - i * n) hreads (by omega) []
    rw [← drop_take, hchunk] at hitems
    simp [hitems]

lemma merklePass_eq (hfetch : Fetches getHashSlice whole) (hne : whole ≠ [])
    (hashv : List Hash → Hash) (borrow : T → Hash) (hfanout : 0 < fanout) {levels : Nat}
    (hn : 0 < n) {maxLevelsPerPass specificLevelCount : Option Nat}
    (hchoice : calculateThreeLevelChunks whole.length fanout maxLevelsPerPass specificLevelCount = (n, levels, threeLevel)) :
    merklePass hashv borrow getHashSlice whole.length fanout maxLevelsPerPass specificLevelCount =
      some (levels, bif threeLevel then
          level (fun run => hashv (level (hashRun hashv fanout) (fanout * fanout) run)) n
            (whole.map borrow)
        else level hashv n (whole.map borrow)) := by
  obtain ⟨data, hget, -, hdata⟩ := hfetch 0 (length_pos_iff.2 hne)
  have hchunks : (range (count whole.length n)).mapM
      (hashChunk hashv borrow getHashSlice whole.length fanout n threeLevel data) =
      some ((range (count whole.length n)).map fun i => bif threeLevel then
          hashv (level (hashRun hashv fanout) (fanout * fanout)
            (((whole.map borrow).drop (i * n)).take n))
        else hashv (((whole.map borrow).drop (i * n)).take n)) := by
    refine ExceptLoops.mapM_eq_some_map fun i hi =>
      hashChunk_eq hfetch hashv borrow hfanout hdata ?_
    exact (mul_lt_of_lt_count hn (mem_range.1 hi)).le
  unfold merklePass
  rw [hchoice]
  simp only [divCeil_eq hn, hget, hchunks, bind_eq_bind, bind_some]
  congr 2
  unfold level
  cases threeLevel with
  | true =>
    rw [cond_true, chunks_eq_map_range hn, List.map_map, List.length_map]
    rfl
  | false =>
    rw [cond_false, chunks_eq_map_range hn, List.map_map, List.length_map]
    rfl

end Reading

section Roots

variable {hashv : List Hash → Hash} {fanout : Nat}

lemma rootFromResult_of_two_le {result : List Hash} (h : 2 ≤ result.length) :
    rootFromResult hashv fanout result = computeMerkleRootLoop hashv result fanout id := by
  match result, h with
  | _ :: _ :: _, _ => rfl

lemma computeMerkleRootLoop_eq (hfanout : 2 ≤ fanout) (extractor : T → Hash) (hne : hashes ≠ []) :
    computeMerkleRootLoop hashv hashes fanout extractor =
      rootFromResult hashv fanout (level hashv fanout (hashes.map extractor)) := by
  have hpos : 0 < fanout := by omega
  have hlevel : (range (count hashes.length fanout)).map (fun i =>
      hashv (((hashes.take (min (i * fanout + fanout) hashes.length)).drop (i * fanout)).map
        extractor)) = level hashv fanout (hashes.map extractor) := by
    rw [level, chunks_eq_map_range hpos, List.map_map, List.length_map]
    refine map_congr_left fun i _ => ?_
    have hchunk := drop_take_min (hashes.map extractor) (i * fanout) fanout
    rw [Function.comp_apply, ← hchunk, map_drop, map_take, length_map]
  have hlength := length_level hpos hashv (hashes.map extractor)
  rw [length_map] at hlength
  rw [computeMerkleRootLoop, isEmpty_eq_false_iff.2 hne, if_neg Bool.false_ne_true]
  simp only [divCeil_eq hpos, bind_eq_bind, bind_some, hlevel]
  match hresult : level hashv fanout (hashes.map extractor) with
  | [root] => rfl
  | [] =>
    have hcount := count_of_pos hpos (length_pos_iff.2 hne)
    rw [hresult, length_nil] at hlength
    omega
  | a :: b :: rest =>
    have hlt : (a :: b :: rest).length < hashes.length := by
      rw [← hresult, ← length_map extractor]
      exact length_level_lt hfanout hashv (by simp [hresult])
    rw [rootFromResult_of_two_le (by simp)]
    exact dif_pos hlt

lemma computeMerkleRootLoop_step (hfanout : 2 ≤ fanout) (extractor : T → Hash)
    (hle : 2 * fanout ≤ hashes.length) :
    computeMerkleRootLoop hashv hashes fanout extractor =
      computeMerkleRootLoop hashv (level hashv fanout (hashes.map extractor)) fanout id := by
  have hpos : 0 < fanout := by omega
  rw [computeMerkleRootLoop_eq hfanout extractor (length_pos_iff.1 (by omega))]
  refine rootFromResult_of_two_le ?_
  rw [length_level hpos, length_map]
  exact le_count_of_mul_le hpos hle

variable (hashv) in
lemma computeMerkleRootLoop_isSome (hfanout : 2 ≤ fanout) (extractor : T → Hash) (hashes : List T) :
    ∃ root, computeMerkleRootLoop hashv hashes fanout extractor = some root := by
  induction hlen : hashes.length using Nat.strong_induction_on generalizing T with
  | h len ih =>
    by_cases hne : hashes = []
    · exact ⟨hashv [], by rw [hne, computeMerkleRootLoop]; rfl⟩
    · rw [computeMerkleRootLoop_eq hfanout extractor hne]
      match hresult : level hashv fanout (hashes.map extractor) with
      | [] =>
        exact ⟨hashv [], by rw [rootFromResult, computeMerkleRootRecurse, computeMerkleRootLoop]; rfl; rintro _ ⟨⟩⟩
      | [root] => exact ⟨root, rfl⟩
      | a :: b :: rest =>
        rw [rootFromResult_of_two_le (by simp)]
        refine ih _ ?_ id _ rfl
        rw [← hlen, ← hresult, ← length_map extractor]
        exact length_level_lt hfanout hashv (by simp [hresult])

lemma computeMerkleRootLoop_three (hfanout : 2 ≤ fanout) (extractor : T → Hash)
    (hle : fanout ^ 3 * fanout ≤ hashes.length) :
    computeMerkleRootLoop hashv hashes fanout extractor =
      computeMerkleRootLoop hashv (level
        (fun run => hashv (level (hashRun hashv fanout) (fanout * fanout) run)) (fanout ^ 3)
        (hashes.map extractor)) fanout id := by
  have hpos : 0 < fanout := by omega
  have htwo : 2 * fanout ≤ fanout ^ 2 := by
    rw [pow_two]
    exact Nat.mul_le_mul_right _ hfanout
  have hthree : fanout ^ 2 ≤ fanout ^ 3 := Nat.pow_le_pow_right hpos (by decide)
  have hcube : fanout ^ 3 = fanout * (fanout * fanout) := by ring
  have hfour : fanout ^ 3 ≤ fanout ^ 3 * fanout := Nat.le_mul_of_pos_right _ hpos
  set first := level hashv fanout (hashes.map extractor) with hfirst
  set second := level hashv fanout first with hsecond
  have hfirst_length : fanout ^ 3 ≤ first.length := by
    rw [hfirst, length_level hpos, length_map]
    exact le_count_of_mul_le hpos hle
  have hsecond_length : fanout ^ 2 ≤ second.length := by
    rw [hsecond, length_level hpos]
    exact le_count_of_mul_le hpos (by rwa [← pow_succ])
  have hlevels : level hashv fanout second = level
      (fun run => hashv (level (hashRun hashv fanout) (fanout * fanout) run)) (fanout ^ 3)
      (hashes.map extractor) := by
    have hinner := level_level hpos hpos hashv hashv (hashes.map extractor)
    rw [hsecond, hfirst, hinner, hcube]
    exact level_level (Nat.mul_pos hpos hpos) hpos _ _ _
  rw [computeMerkleRootLoop_step hfanout extractor (by omega), ← hfirst,
    computeMerkleRootLoop_step hfanout id (by omega), List.map_id, ← hsecond,
    computeMerkleRootLoop_step hfanout id (by omega), List.map_id, hlevels]

lemma computeMerkleRootFromSlices_eq (hashv : List Hash → Hash) (borrow : T → Hash)
    (hfanout : 2 ≤ fanout) (hfits : fanout < 2 ^ 16) (hfetch : Fetches getHashSlice whole) :
    computeMerkleRootFromSlices hashv borrow whole.length fanout none getHashSlice none =
      (computeMerkleRootLoop hashv whole fanout borrow).map fun root => (root, []) := by
  have hpos : 0 < fanout := by omega
  by_cases hne : whole = []
  · rw [hne, computeMerkleRootFromSlices, computeMerkleRootLoop]
    rfl
  · have htarget : wrapUsize (fanout ^ 3) = fanout ^ 3 :=
      Nat.mod_eq_of_lt ((Nat.pow_lt_pow_left hfits (by decide)).trans (by decide))
    have hthreshold : wrapUsize (fanout ^ 3 * fanout) = fanout ^ 3 * fanout := by
      rw [← pow_succ]
      exact Nat.mod_eq_of_lt ((Nat.pow_lt_pow_left hfits (by decide)).trans_eq (by decide))
    rw [computeMerkleRootFromSlices, if_neg (mt length_eq_zero_iff.1 hne)]
    by_cases hlarge : fanout ^ 3 * fanout ≤ whole.length
    · have hchoice : calculateThreeLevelChunks whole.length fanout none none =
          (fanout ^ 3, 3, true) := by
        simp [calculateThreeLevelChunks, htarget, hthreshold, hlarge, u64Max]
      rw [merklePass_eq hfetch hne hashv borrow hpos (Nat.pow_pos hpos) hchoice,
        computeMerkleRootLoop_three hfanout borrow hlarge]
      simp only [bind_eq_bind, bind_some, cond_true]
      rw [rootFromResult_of_two_le]
      rw [length_level (Nat.pow_pos hpos), length_map]
      refine hfanout.trans (le_count_of_mul_le (Nat.pow_pos hpos) ?_)
      rwa [Nat.mul_comm]
    · have hchoice : calculateThreeLevelChunks whole.length fanout none none = (fanout, 1, false) := by
        simp [calculateThreeLevelChunks, htarget, hthreshold, hlarge]
      rw [merklePass_eq hfetch hne hashv borrow hpos hpos hchoice,
        computeMerkleRootLoop_eq hfanout borrow hne]
      rfl

/-- For every cut of a list of hashes into slices the root over the slices is that of the list, and
`get_slice` yields the rest of the slice that an index falls into. -/
theorem slicedRoot_eq {T : Type} (hashv : List Hash → Hash) (borrow : T → Hash)
    (hfanout : 2 ≤ fanout) (hfits : fanout < 2 ^ 16) (slices : List (List T)) :
    (∃ root, computeMerkleRootLoop hashv slices.flatten fanout borrow = some root ∧
      computeMerkleRootFromSlices hashv borrow (fromRaw slices).totalCount fanout
        none ((fromRaw slices).getSlice slices) none = some (root, []) ∧
      (slices.flatten = [] → root = hashv [])) ∧
    ∀ start < (fromRaw slices).totalCount, ∃ i slice k,
      slices[i]? = some slice ∧ (slices.take i).flatten.length + k = start ∧ k < slice.length ∧
      (fromRaw slices).getSlice slices start = some (slice.drop k) := by
  rw [totalCount_fromRaw]
  refine ⟨?_, fun start hstart => getSlice_eq hstart⟩
  obtain ⟨root, hroot⟩ := computeMerkleRootLoop_isSome hashv hfanout borrow slices.flatten
  refine ⟨root, hroot, ?_, fun hnil => ?_⟩
  · rw [computeMerkleRootFromSlices_eq hashv borrow hfanout hfits (fetches_getSlice slices), hroot]
    rfl
  · rw [hnil, computeMerkleRootLoop] at hroot
    exact (Option.some.inj hroot).symm

/-- A hasher that tells its inputs apart well enough to be run. -/
def polynomialHash (hashes : List Hash) : Hash := hashes.foldl (fun acc h => 31 * acc + h) 7

/-- Seventeen hashes with a cut inside of a chunk of eight, and an empty slice. -/
def cutHashes : List (List Hash) := [[1, 2, 3, 4, 5], [], [6, 7, 8, 9, 10, 11, 12, 13, 14, 15, 16, 17]]

theorem cutHashes_root :
    ∃ root, computeMerkleRootLoop polynomialHash cutHashes.flatten 2 id = some root ∧
      computeMerkleRootFromSlices polynomialHash id 17 2 none
        ((fromRaw cutHashes).getSlice cutHashes) none = some (root, []) := by
  obtain ⟨⟨root, hloop, hslices, -⟩, -⟩ :=
    slicedRoot_eq polynomialHash id (by decide : 2 ≤ 2) (by decide) cutHashes
  exact ⟨root, hloop, hslices⟩

/-- With a fanout of `2 ^ 16` the threshold for three levels wraps to zero: a single hash is hashed
three times over. -/
theorem wrappedThreshold_root_differs :
    computeMerkleRootLoop polynomialHash [[7]].flatten (2 ^ 16) id = some 224 ∧
      computeMerkleRootFromSlices polynomialHash id (fromRaw [[7]]).totalCount
        (2 ^ 16) none ((fromRaw [[7]]).getSlice [[7]]) none =
        some (658, []) := by
  constructor
  · rw [computeMerkleRootLoop]
    decide +kernel
  · rw [computeMerkleRootFromSlices]
    decide +kernel

end Roots

/-- The hash of all slices is the root of their hashes, whatever their cut. -/
theorem calculateHash_eq (hashv : List Hash → Hash) (hashes : List (List Hash)) :
    ∃ root, calculateHash hashv hashes = some (root, hashes.flatten.length) ∧
      computeMerkleRootRecurse hashv hashes.flatten merkleFanout = some root := by
  simp only [calculateHash, computeMerkleRootRecurse, totalCount_fromRaw]
  refine (computeMerkleRootLoop_isSome hashv (by decide) id _).imp fun root hroot => ⟨?_, hroot⟩
  rw [computeMerkleRootFromSlices_eq hashv id (by decide) (by decide) (fetches_getSlice hashes), hroot]
  rfl

end Nuah.Proofs
