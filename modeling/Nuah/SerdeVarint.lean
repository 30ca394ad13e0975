import Nuah.ShortVec

/-!
# Integers of variable size

`sdk/program/src/serde_varint.rs`: seven bits a byte, the lowest first, and the high bit on all bytes
but the last. The bytes are those of a tuple, of which there are at most as many as the type can need.
-/

namespace Nuah

open ByteStrings Codecs ShortVec

namespace SerdeVarint

variable {bits shift out digit n : Nat}

inductive VarIntError where
  | unexpectedEof
  | invalidSequence
  | lastByteTruncated
  | invalidTrailingZeros
  | leftShiftOverflows
deriving Repr, DecidableEq

/-- The loop of the visitor for a type of so many bits: the bytes that may still come, the shift and
the output so far. -/
def visitSeq (bits : Nat) : Nat → Nat → Nat → ByteString → Except VarIntError (Nat × ByteString)
  | left, shift, out, input =>
    if shift < bits then
      match left, input with
      | 0, _ => .error .invalidSequence
      | _ + 1, [] => .error .unexpectedEof
      | left + 1, byte :: input =>
        let out := out ||| (((byte.toNat &&& 0x7f) <<< shift) % 2 ^ bits)
        if byte.toNat &&& 0x80 = 0 then
          if (out >>> shift) % 256 ≠ byte.toNat then .error .lastByteTruncated
          else if byte = 0 ∧ (shift ≠ 0 ∨ out ≠ 0) then .error .invalidTrailingZeros
          else .ok (out, input)
        else visitSeq bits left (shift + 7) out input
    else .error .leftShiftOverflows

def tupleLength (bits : Nat) : Nat := (bits + 6) / 7

def serialize (n : Nat) : ByteString :=
  if 0x80 ≤ n then UInt8.ofNat ((n &&& 0x7f) ||| 0x80) :: serialize (n >>> 7)
  else [UInt8.ofNat n]
termination_by n
decreasing_by
  rw [Nat.shiftRight_eq_div_pow]
  omega

lemma serialize_of_lt (h : n < 128) : serialize n = [UInt8.ofNat n] := by
  rw [serialize, if_neg (Nat.not_le.2 h)]

lemma toNat_high (h : n < 128) : (UInt8.ofNat (n ||| 0x80)).toNat = n + 128 := by
  revert n
  decide

lemma serialize_of_le (h : 128 ≤ n) :
    serialize n = UInt8.ofNat (n % 128 ||| 0x80) :: serialize (n / 128) := by
  rw [serialize, if_pos h, and_low_bits, shiftRight_seven]

lemma or_digit (hshift : shift ≤ bits) (hout : out < 2 ^ shift) :
    out ||| ((digit <<< shift) % 2 ^ bits) = out + 2 ^ shift * (digit % 2 ^ (bits - shift)) := by
  have hpow : 2 ^ bits = 2 ^ (bits - shift) * 2 ^ shift := by
    rw [← pow_add, Nat.sub_add_cancel hshift]
  rw [Nat.shiftLeft_eq, hpow, Nat.mul_mod_mul_right, ← Nat.shiftLeft_eq, Nat.or_comm,
    ← Nat.shiftLeft_add_eq_or_of_lt hout, Nat.shiftLeft_eq, Nat.mul_comm, Nat.add_comm]

lemma shiftRight_digit (hout : out < 2 ^ shift) :
    (out + 2 ^ shift * digit) >>> shift = digit := by
  rw [Nat.shiftRight_eq_div_pow, Nat.add_mul_div_left _ _ (Nat.two_pow_pos shift),
    Nat.div_eq_of_lt hout, Nat.zero_add]

lemma visitSeq_eq_ok {left : Nat} {input rest : ByteString}
    (hout : out < 2 ^ shift) (h : visitSeq bits left shift out input = .ok (n, rest)) :
    n < 2 ^ bits ∧ ∃ m, n = out + 2 ^ shift * m ∧ (shift ≠ 0 → m ≠ 0) ∧
      input = serialize m ++ rest := by
  induction left generalizing shift out input with
  | zero =>
    unfold visitSeq at h
    split_ifs at h
  | succ left ih =>
    unfold visitSeq at h
    split_ifs at h with hshift
    · cases input with
      | nil => cases h
      | cons byte input =>
        have hbyte := byte.toNat_lt
        have hmod := Nat.mod_lt byte.toNat (show 0 < 128 by decide)
        have hhigh := and_high_bit hbyte
        rw [beq_eq_decide, decide_eq_decide] at hhigh
        simp only [and_low_bits, or_digit hshift.le hout, hhigh] at h
        split_ifs at h with hlast htruncated hzeros
        · rw [Nat.mod_eq_of_lt hlast, shiftRight_digit hout] at htruncated
          have hfits : byte.toNat % 2 ^ (bits - shift) = byte.toNat := by
            have hle := Nat.mod_le byte.toNat (2 ^ (bits - shift))
            rw [Nat.mod_eq_of_lt (show byte.toNat % 2 ^ (bits - shift) < 256 by omega)] at htruncated
            exact not_not.1 htruncated
          cases h
          rw [Nat.mod_eq_of_lt hlast, hfits] at hzeros ⊢
          refine ⟨?_, byte.toNat, rfl, ?_, ?_⟩
          · have hlt := add_digit_lt hout
              (hfits ▸ Nat.mod_lt byte.toNat (Nat.two_pow_pos (bits - shift)))
            rwa [Nat.add_sub_cancel' hshift.le] at hlt
          · intro hne hzero
            exact hzeros ⟨UInt8.toNat_inj.1 hzero, .inl hne⟩
          · rw [serialize_of_lt hlast, UInt8.ofNat_toNat]
            rfl
        · -- the loop goes on, so that the bits of this byte were not cut off
          have hmore : shift + 7 < bits := by
            by_contra hend
            unfold visitSeq at h
            rw [if_neg hend] at h
            cases h
          have hfits : byte.toNat % 128 % 2 ^ (bits - shift) = byte.toNat % 128 := by
            apply Nat.mod_eq_of_lt
            calc byte.toNat % 128 < 2 ^ 7 := hmod
              _ ≤ 2 ^ (bits - shift) := Nat.pow_le_pow_right (by decide) (by omega)
          rw [hfits] at h
          obtain ⟨hlt, m, rfl, hm, rfl⟩ := ih (add_digit_lt hout hmod) h
          have hm := hm (Nat.succ_ne_zero _)
          refine ⟨hlt, byte.toNat % 128 + 128 * m, by rw [pow_add]; ring, fun _ => by omega, ?_⟩
          have hhead : UInt8.ofNat (byte.toNat % 128 ||| 0x80) = byte := by
            apply UInt8.toNat_inj.1
            rw [toNat_high hmod]
            omega
          have hlarge : 128 ≤ byte.toNat % 128 + 128 * m := by omega
          rw [serialize_of_le hlarge, Nat.add_mul_mod_self_left, Nat.mod_mod, hhead,
            Nat.add_mul_div_left _ _ (by decide), Nat.div_eq_of_lt hmod, Nat.zero_add]
          rfl

lemma visitSeq_serialize {left m : Nat} (hleft : bits ≤ 7 * left + shift)
    (hshift : shift < bits) (hout : out < 2 ^ shift) (hm : shift ≠ 0 → m ≠ 0)
    (hfits : out + 2 ^ shift * m < 2 ^ bits) (rest : ByteString) :
    visitSeq bits left shift out (serialize m ++ rest) = .ok (out + 2 ^ shift * m, rest) := by
  induction left generalizing shift out m with
  | zero => omega
  | succ left ih =>
    have hlt : m < 2 ^ (bits - shift) := by
      have hmul : 2 ^ shift * m < 2 ^ shift * 2 ^ (bits - shift) := by
        rw [← pow_add, Nat.add_sub_cancel' hshift.le]
        omega
      exact Nat.lt_of_mul_lt_mul_left hmul
    unfold visitSeq
    rw [if_pos hshift]
    by_cases hsmall : m < 128
    · have hbyte : (UInt8.ofNat m).toNat = m := UInt8.toNat_ofNat_of_lt' (hsmall.trans (by decide))
      have hhigh := and_high_bit (show m < 256 by omega)
      rw [beq_eq_decide, decide_eq_decide] at hhigh
      have hzeros : ¬(UInt8.ofNat m = 0 ∧ (shift ≠ 0 ∨ out + 2 ^ shift * m ≠ 0)) := by
        rintro ⟨hzero, hne⟩
        obtain rfl : m = 0 := hbyte.symm.trans (congrArg UInt8.toNat hzero)
        have hzero : shift = 0 := by
          by_contra hne
          exact hm hne rfl
        subst hzero
        omega
      rw [serialize_of_lt hsmall, List.singleton_append]
      simp only [hbyte, and_low_bits, Nat.mod_eq_of_lt hsmall, or_digit hshift.le hout,
        Nat.mod_eq_of_lt hlt, hhigh, if_pos hsmall, shiftRight_digit hout]
      rw [if_neg (by omega), if_neg hzeros]
    · have hle := Nat.not_lt.1 hsmall
      have hmod := Nat.mod_lt m (show 0 < 128 by decide)
      have hbyte : (UInt8.ofNat (m % 128 ||| 0x80)).toNat = m % 128 + 128 := toNat_high hmod
      have hhigh := and_high_bit (show m % 128 + 128 < 256 by omega)
      rw [beq_eq_decide, decide_eq_decide] at hhigh
      have hmore : 7 < bits - shift :=
        (Nat.pow_lt_pow_iff_right (show 1 < 2 by decide)).1 (lt_of_le_of_lt hle hlt)
      have hdigit : m % 128 % 2 ^ (bits - shift) = m % 128 :=
        Nat.mod_eq_of_lt ((Nat.mod_le m 128).trans_lt hlt)
      have hmul : out + 2 ^ shift * m =
          out + 2 ^ shift * (m % 128) + 2 ^ (shift + 7) * (m / 128) := by
        conv_lhs => rw [← Nat.mod_add_div m 128]
        rw [pow_add]
        ring
      rw [serialize_of_le hle, List.cons_append]
      simp only [hbyte, and_low_bits, Nat.add_mod_right, Nat.mod_mod,
        or_digit hshift.le hout, hdigit, hhigh]
      rw [if_neg (by omega), ih (by omega) (by omega) (add_digit_lt hout hmod) (fun _ => by omega)
        (by omega), hmul]

lemma visitSeq_eq_ok_iff (hbits : 0 < bits) {input rest : ByteString} :
    visitSeq bits (tupleLength bits) 0 0 input = .ok (n, rest) ↔
      n < 2 ^ bits ∧ input = serialize n ++ rest := by
  constructor
  · intro h
    obtain ⟨hlt, m, rfl, -, rfl⟩ := visitSeq_eq_ok (by decide) h
    rw [pow_zero, Nat.one_mul, Nat.zero_add] at hlt ⊢
    exact ⟨hlt, rfl⟩
  · rintro ⟨hlt, rfl⟩
    have hread := @visitSeq_serialize bits 0 0 (tupleLength bits) n (by unfold tupleLength; omega)
      hbits (by decide) (fun hne => absurd rfl hne) (by omega) rest
    rwa [Nat.zero_add, pow_zero, Nat.one_mul] at hread

/-- `serde_varint` for a type of so many bits. -/
def varInt (bits : Nat) : Codec Nat where
  write n := if n < 2 ^ bits then some (serialize n) else none
  read input := (visitSeq bits (tupleLength bits) 0 0 input).toOption
  canonical h := by
    obtain ⟨hlt, m, rfl, -, rfl⟩ := visitSeq_eq_ok (by decide) (toOption_eq_some.1 h)
    rw [pow_zero, Nat.one_mul, Nat.zero_add] at hlt ⊢
    exact ⟨serialize m, if_pos hlt, rfl⟩

lemma varInt_exact (hbits : 0 < bits) : (varInt bits).Exact := by
  intro n bytes rest h
  change (if _ then _ else _) = _ at h
  split_ifs at h with hlt
  cases h
  exact toOption_eq_some.2 ((visitSeq_eq_ok_iff hbits).2 ⟨hlt, rfl⟩)

lemma serialize_eq_serializeShortU16 (n : Nat) : serialize n = serializeShortU16 n := by
  induction n using Nat.strong_induction_on with
  | _ n ih =>
    rcases Nat.lt_or_ge n 128 with hlt | hge
    · rw [serialize_of_lt hlt, serializeShortU16_of_lt hlt]
    · have hmod := Nat.mod_lt n (show 0 < 128 by decide)
      rw [serialize_of_le hge, serializeShortU16_of_le hge, ih (n / 128) (by omega),
        UInt8.toNat_inj.1 ((toNat_high hmod).trans (toNat_or_high_bit hmod).symm)]

/-- An encoding is accepted only if it is the one that the value is written with, and the three
decoders of 16-bit integers agree. -/
theorem varints_canonical (n : Nat) (input : ByteString) :
    (∀ bits ∈ [16, 32, 64], ∀ rest, visitSeq bits (tupleLength bits) 0 0 input = .ok (n, rest) ↔
      n < 2 ^ bits ∧ input = serialize n ++ rest) ∧
    (∀ rest, ShortVec.visitSeq maxEncodingLength 0 0 input = .ok (n, rest) ↔
      visitSeq 16 (tupleLength 16) 0 0 input = .ok (n, rest)) ∧
    ∀ len, decodeShortu16Len input = some (n, len) ↔
      ∃ rest, visitSeq 16 (tupleLength 16) 0 0 input = .ok (n, rest) ∧
        len + rest.length = input.length := by
  have hshort : ∀ rest, ShortVec.visitSeq maxEncodingLength 0 0 input = .ok (n, rest) ↔
      visitSeq 16 (tupleLength 16) 0 0 input = .ok (n, rest) := by
    intro rest
    rw [ShortVec.visitSeq_eq_ok_iff, visitSeq_eq_ok_iff (by decide), serialize_eq_serializeShortU16]
    exact and_congr_left fun _ => Nat.lt_succ_iff.symm
  refine ⟨?_, hshort, fun len => ?_⟩
  · have hpos : ∀ bits ∈ [16, 32, 64], 0 < bits := by decide
    exact fun bits hbits rest => visitSeq_eq_ok_iff (hpos bits hbits)
  · simp only [← hshort]
    rw [decodeShortu16Len, decodeLoop_eq_some, Nat.zero_add]

end SerdeVarint

end Nuah
