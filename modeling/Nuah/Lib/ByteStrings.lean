import Mathlib

/-!
# Byte strings

Fixed-width words in byte strings, reading from the front of a byte string, and writing over a
part of one.
-/

namespace ByteStrings

open List

variable {bytes data : ByteString} {offset n start stop : Nat}

abbrev ByteString := List UInt8

def leBytes : Nat → Nat → ByteString
  | 0, _ => []
  | width + 1, n => UInt8.ofNat n :: leBytes width (n / 256)

def ofLeBytes : ByteString → Nat
  | [] => 0
  | b :: bytes => b.toNat + 256 * ofLeBytes bytes

@[simp] lemma length_leBytes (width n : Nat) : (leBytes width n).length = width := by
  induction width generalizing n with
  | zero => rfl
  | succ width ih => rw [leBytes, length_cons, ih]

@[simp] lemma ofLeBytes_leBytes (width n : Nat) : ofLeBytes (leBytes width n) = n % 256 ^ width := by
  induction width generalizing n with
  | zero => rw [leBytes, ofLeBytes, pow_zero, Nat.mod_one]
  | succ width ih =>
    rw [leBytes, ofLeBytes, ih, UInt8.toNat_ofNat']
    change n % 256 + 256 * (n / 256 % 256 ^ width) = n % 256 ^ (width + 1)
    rw [pow_succ, Nat.mul_comm _ 256, Nat.mod_mul]

lemma ofLeBytes_lt (bytes : ByteString) : ofLeBytes bytes < 256 ^ bytes.length := by
  induction bytes with
  | nil => exact Nat.one_pos
  | cons b bytes ih =>
    have hb := b.toNat_lt
    rw [ofLeBytes, length_cons, Nat.pow_succ]
    omega

lemma leBytes_ofLeBytes (bytes : ByteString) : leBytes bytes.length (ofLeBytes bytes) = bytes := by
  induction bytes with
  | nil => rfl
  | cons b bytes ih =>
    have hb := b.toNat_lt
    have hdiv : (b.toNat + 256 * ofLeBytes bytes) / 256 = ofLeBytes bytes := by omega
    have hhead : UInt8.ofNat (b.toNat + 256 * ofLeBytes bytes) = b := by
      apply UInt8.toNat_inj.1
      rw [UInt8.toNat_ofNat']
      change (b.toNat + 256 * ofLeBytes bytes) % 256 = b.toNat
      omega
    rw [ofLeBytes, length_cons, leBytes, hdiv, hhead, ih]

def readBytes (width : Nat) (input : ByteString) : Option (ByteString × ByteString) :=
  if width ≤ input.length then some (input.take width, input.drop width) else none

lemma readBytes_append {width : Nat} (hlength : bytes.length = width) (rest : ByteString) :
    readBytes width (bytes ++ rest) = some (bytes, rest) := by
  subst hlength
  rw [readBytes, if_pos (by simp), take_left, drop_left]

lemma readBytes_eq_some {width : Nat} {input rest : ByteString}
    (h : readBytes width input = some (bytes, rest)) :
    bytes.length = width ∧ input = bytes ++ rest := by
  unfold readBytes at h
  split_ifs at h with hle
  cases h
  exact ⟨length_take_of_le hle, (take_append_drop width input).symm⟩

def overwrite (data : ByteString) (offset : Nat) (bytes : ByteString) : ByteString :=
  data.take offset ++ bytes ++ data.drop (offset + bytes.length)

lemma overwrite_zero (data bytes : ByteString) :
    overwrite data 0 bytes = bytes ++ data.drop bytes.length := by
  rw [overwrite, take_zero, nil_append, Nat.zero_add]

lemma overwrite_to_end (h : offset + bytes.length = data.length) :
    overwrite data offset bytes = data.take offset ++ bytes := by
  rw [overwrite, h, drop_length, append_nil]

lemma length_overwrite (h : offset + bytes.length ≤ data.length) :
    (overwrite data offset bytes).length = data.length := by
  simp only [overwrite, length_append, length_take, length_drop]
  omega

lemma drop_overwrite (h : offset + bytes.length ≤ data.length) (hn : offset + bytes.length ≤ n) :
    (overwrite data offset bytes).drop n = data.drop n := by
  have hfront : (data.take offset ++ bytes).length = offset + bytes.length := by
    rw [length_append, length_take_of_le (by omega)]
  rw [overwrite, drop_append, hfront, drop_eq_nil_of_le (hfront.le.trans hn), nil_append, drop_drop]
  congr 1
  omega

lemma take_overwrite (hn : n ≤ offset) (hoffset : offset ≤ data.length) :
    (overwrite data offset bytes).take n = data.take n := by
  rw [overwrite, append_assoc, take_append_of_le_length, take_take, min_eq_left hn]
  rw [length_take_of_le hoffset]
  exact hn

lemma drop_overwrite_self (h : offset ≤ data.length) :
    (overwrite data offset bytes).drop offset = bytes ++ data.drop (offset + bytes.length) := by
  rw [overwrite, append_assoc, drop_left' (length_take_of_le h)]

def resize (data : ByteString) (length : Nat) : ByteString :=
  data.take length ++ List.replicate (length - data.length) 0

lemma resize_of_le {length : Nat} (h : data.length ≤ length) :
    resize data length = data ++ List.replicate (length - data.length) 0 := by
  rw [resize, take_of_length_le h]

lemma length_resize (data : ByteString) (length : Nat) : (resize data length).length = length := by
  simp only [resize, length_append, length_take, length_replicate]
  omega

/-- The bytes from one offset up to another, if there are as many. -/
def slice (data : ByteString) (start stop : Nat) : Option ByteString :=
  if start ≤ stop ∧ stop ≤ data.length then some ((data.take stop).drop start) else none

lemma slice_of_le (h : start ≤ stop) (hstop : stop ≤ data.length) :
    slice data start stop = some ((data.take stop).drop start) :=
  if_pos ⟨h, hstop⟩

lemma slice_congr {data' : ByteString} (h : data.take stop = data'.take stop)
    (hlength : stop ≤ data.length ↔ stop ≤ data'.length) :
    slice data start stop = slice data' start stop := by
  unfold slice
  rw [h]
  simp only [hlength]

lemma slice_take (h : stop ≤ n) : slice (data.take n) start stop = slice data start stop := by
  refine slice_congr ?_ ?_
  · rw [take_take, min_eq_left h]
  · rw [length_take]
    omega

end ByteStrings
