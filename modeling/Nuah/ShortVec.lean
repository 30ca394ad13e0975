import Nuah.Primitives
import Nuah.Lib.ExactCodecs

/-!
# Short vectors

Lengths below `2 ^ 16` are written with one to three bytes of seven bits each. They are read in
two places: by the deserializer, and by `decodeShortu16Len` from raw bytes.
-/

namespace Nuah

open ByteStrings Codecs

def u16Max : Nat := 2 ^ 16 - 1

/-- `checked_shl` of `u32`. -/
def checkedShlU32 (a shift : Nat) : Option Nat :=
  if shift < 32 then some ((a <<< shift) % 2 ^ 32) else none

namespace ShortVec

variable {nthByte val n m : Nat}

inductive VisitStatus where
  | done (val : Nat)
  | more (val : Nat)
deriving Repr, DecidableEq

inductive VisitError where
  | tooLong (len : Nat)
  | tooShort (len : Nat)
  | overflow (val : Nat)
  | alias
  | byteThreeContinues
deriving Repr, DecidableEq

def maxEncodingLength : Nat := 3

def visitByte (elem : UInt8) (val nthByte : Nat) : Except VisitError VisitStatus :=
  let elemVal := elem.toNat &&& 0x7f
  let elemDone := elem.toNat &&& 0x80 == 0
  if elem = 0 ∧ nthByte ≠ 0 then .error .alias
  else if maxEncodingLength ≤ nthByte then .error (.tooLong (nthByte + 1))
  else if nthByte = maxEncodingLength - 1 ∧ elemDone = false then .error .byteThreeContinues
  else
    let newVal := val ||| (checkedShlU32 elemVal (nthByte * 7)).getD u32Max
    if u16Max < newVal then .error (.overflow newVal)
    else if elemDone then .ok (.done newVal)
    else .ok (.more newVal)

def serializeShortU16 (remVal : Nat) : ByteString :=
  if h : remVal >>> 7 = 0 then [UInt8.ofNat (remVal &&& 0x7f)]
  else (UInt8.ofNat (remVal &&& 0x7f) ||| 0x80) :: serializeShortU16 (remVal >>> 7)
termination_by remVal
decreasing_by
  rw [Nat.shiftRight_eq_div_pow] at h ⊢
  omega

/-- The visitor of the deserializer: the bytes that may still come, the number of the next one and
the value so far. -/
def visitSeq : Nat → Nat → Nat → ByteString → Except VisitError (Nat × ByteString)
  | 0, _, _, _ => .error .byteThreeContinues
  | _ + 1, nthByte, _, [] => .error (.tooShort (nthByte + 1))
  | left + 1, nthByte, val, elem :: input => do
    match ← visitByte elem val nthByte with
    | .done newVal => .ok (newVal, input)
    | .more newVal => visitSeq left (nthByte + 1) newVal input

def decodeLoop : Nat → Nat → ByteString → Option (Nat × Nat)
  | _, _, [] => none
  | nthByte, val, byte :: bytes =>
    match visitByte byte val nthByte with
    | .error _ => none
    | .ok (.more newVal) => decodeLoop (nthByte + 1) newVal bytes
    | .ok (.done newVal) => some (newVal, nthByte + 1)

def decodeShortu16Len (bytes : ByteString) : Option (Nat × Nat) :=
  decodeLoop 0 0 (bytes.take maxEncodingLength)

lemma and_high_bit (h : n < 256) : (n &&& 0x80 == 0) = decide (n < 128) := by
  revert n
  decide +kernel

lemma and_low_bits (n : Nat) : n &&& 0x7f = n % 128 := Nat.and_two_pow_sub_one_eq_mod n 7

lemma shiftRight_seven (n : Nat) : n >>> 7 = n / 128 := Nat.shiftRight_eq_div_pow n 7

lemma toNat_or_high_bit (h : n < 128) : (UInt8.ofNat n ||| 0x80).toNat = n + 128 := by
  revert n
  decide

lemma add_digit_lt {base k width digit : Nat} (hval : val < base ^ k) (hdigit : digit < base ^ width) :
    val + base ^ k * digit < base ^ (k + width) := by
  calc val + base ^ k * digit < base ^ k + base ^ k * digit := Nat.add_lt_add_right hval _
    _ = base ^ k * (digit + 1) := by ring
    _ ≤ base ^ k * base ^ width := Nat.mul_le_mul_left _ hdigit
    _ = base ^ (k + width) := (pow_add _ _ _).symm

lemma visitByte_eq {elem : UInt8} (hnth : nthByte < maxEncodingLength)
    (hval : val < 128 ^ nthByte) :
    visitByte elem val nthByte =
      if elem = 0 ∧ nthByte ≠ 0 then .error .alias
      else if nthByte = 2 ∧ 128 ≤ elem.toNat then .error .byteThreeContinues
      else if u16Max < val + 128 ^ nthByte * (elem.toNat % 128) then
        .error (.overflow (val + 128 ^ nthByte * (elem.toNat % 128)))
      else if elem.toNat < 128 then .ok (.done (val + 128 ^ nthByte * (elem.toNat % 128)))
      else .ok (.more (val + 128 ^ nthByte * (elem.toNat % 128))) := by
  have hpow : (2 : Nat) ^ (nthByte * 7) = 128 ^ nthByte := by
    rw [Nat.mul_comm, pow_mul]
    rfl
  have hnth' : nthByte ≤ 2 := Nat.le_of_lt_succ hnth
  have hshift : checkedShlU32 (elem.toNat % 128) (nthByte * 7) =
      some ((elem.toNat % 128) <<< (nthByte * 7)) := by
    rw [checkedShlU32, if_pos (by omega), Nat.mod_eq_of_lt]
    rw [Nat.shiftLeft_eq, hpow]
    have hle : 128 ^ nthByte ≤ 128 ^ 2 := Nat.pow_le_pow_right (by decide) hnth'
    have hmod := Nat.mod_lt elem.toNat (show 0 < 128 by decide)
    calc elem.toNat % 128 * 128 ^ nthByte ≤ 128 * 128 ^ 2 := Nat.mul_le_mul hmod.le hle
      _ < 2 ^ 32 := by decide
  have hor : val ||| (elem.toNat % 128) <<< (nthByte * 7) =
      val + 128 ^ nthByte * (elem.toNat % 128) := by
    rw [Nat.or_comm, ← Nat.shiftLeft_add_eq_or_of_lt (hpow ▸ hval), Nat.shiftLeft_eq, hpow]
    ring
  have hthree : (nthByte = maxEncodingLength - 1 ∧ decide (elem.toNat < 128) = false) ↔
      (nthByte = 2 ∧ 128 ≤ elem.toNat) := by
    rw [decide_eq_false_iff_not, Nat.not_lt]
    rfl
  unfold visitByte
  simp only [and_low_bits, and_high_bit elem.toNat_lt, hshift, Option.getD_some, hor, hthree,
    if_neg (Nat.not_le.2 hnth), decide_eq_true_eq]

lemma serializeShortU16_of_lt (h : n < 128) : serializeShortU16 n = [UInt8.ofNat n] := by
  rw [serializeShortU16, dif_pos (by rw [shiftRight_seven]; omega), and_low_bits, Nat.mod_eq_of_lt h]

lemma serializeShortU16_of_le (h : 128 ≤ n) :
    serializeShortU16 n = (UInt8.ofNat (n % 128) ||| 0x80) :: serializeShortU16 (n / 128) := by
  rw [serializeShortU16, dif_neg (by rw [shiftRight_seven]; omega), and_low_bits, shiftRight_seven]

lemma visitSeq_eq_ok {left : Nat} {input rest : ByteString}
    (hleft : left + nthByte = maxEncodingLength) (hval : val < 128 ^ nthByte)
    (h : visitSeq left nthByte val input = .ok (n, rest)) :
    n ≤ u16Max ∧ ∃ m, n = val + 128 ^ nthByte * m ∧ (nthByte ≠ 0 → m ≠ 0) ∧
      input = serializeShortU16 m ++ rest := by
  induction left generalizing nthByte val input with
  | zero => cases h
  | succ left ih =>
    cases input with
    | nil => cases h
    | cons elem input =>
      obtain ⟨status, hvisit, h⟩ := bind_eq_ok.1 h
      have hmod := Nat.mod_lt elem.toNat (show 0 < 128 by decide)
      rw [visitByte_eq (by omega) hval] at hvisit
      split_ifs at hvisit with halias _ hfits hdone
      · cases hvisit
        cases h
        rw [Nat.mod_eq_of_lt hdone] at hfits ⊢
        refine ⟨Nat.not_lt.1 hfits, elem.toNat, rfl, fun hne hzero => ?_, ?_⟩
        · exact halias ⟨UInt8.toNat_inj.1 hzero, hne⟩
        · rw [serializeShortU16_of_lt hdone, UInt8.ofNat_toNat]
          rfl
      · cases hvisit
        obtain ⟨hle, m, rfl, hm, rfl⟩ := ih (by omega) (add_digit_lt hval hmod) h
        have hm := hm (Nat.succ_ne_zero nthByte)
        -- a further byte, so the value is at least 128, and its low bits are those of this byte
        refine ⟨hle, elem.toNat % 128 + 128 * m, by ring, fun _ => by omega, ?_⟩
        have hhead : UInt8.ofNat (elem.toNat % 128) ||| 0x80 = elem := by
          apply UInt8.toNat_inj.1
          rw [toNat_or_high_bit hmod]
          have := elem.toNat_lt
          omega
        have hlarge : 128 ≤ elem.toNat % 128 + 128 * m := by omega
        rw [serializeShortU16_of_le hlarge, Nat.add_mul_mod_self_left, Nat.mod_mod, hhead,
          Nat.add_mul_div_left _ _ (by decide), Nat.div_eq_of_lt hmod, Nat.zero_add]
        rfl

lemma visitByte_last (hnth : nthByte < maxEncodingLength)
    (hval : val < 128 ^ nthByte) (hm : nthByte ≠ 0 → m ≠ 0)
    (hfits : val + 128 ^ nthByte * m ≤ u16Max) (hsmall : m < 128) :
    visitByte (UInt8.ofNat m) val nthByte = .ok (.done (val + 128 ^ nthByte * m)) := by
  have hbyte : (UInt8.ofNat m).toNat = m := UInt8.toNat_ofNat_of_lt' (hsmall.trans (by decide))
  have hzero : ¬ (UInt8.ofNat m = 0 ∧ nthByte ≠ 0) := by
    rintro ⟨hzero, hne⟩
    exact hm hne (hbyte.symm.trans (congrArg UInt8.toNat hzero))
  rw [visitByte_eq hnth hval, hbyte, Nat.mod_eq_of_lt hsmall, if_neg hzero, if_neg (by omega),
    if_neg (by omega), if_pos hsmall]

lemma visitByte_more (hnth : nthByte < maxEncodingLength)
    (hval : val < 128 ^ nthByte) (hfits : val + 128 ^ nthByte * m ≤ u16Max) (hle : 128 ≤ m) :
    nthByte + 1 < maxEncodingLength ∧
    visitByte (UInt8.ofNat (m % 128) ||| 0x80) val nthByte =
      .ok (.more (val + 128 ^ nthByte * (m % 128))) ∧
    val + 128 ^ nthByte * (m % 128) < 128 ^ (nthByte + 1) ∧
    val + 128 ^ nthByte * m =
      val + 128 ^ nthByte * (m % 128) + 128 ^ (nthByte + 1) * (m / 128) := by
  have hmod := Nat.mod_lt m (show 0 < 128 by decide)
  have hbyte : (UInt8.ofNat (m % 128) ||| 0x80).toNat = m % 128 + 128 := toNat_or_high_bit hmod
  have hmul : 128 ^ nthByte * m =
      128 ^ nthByte * (m % 128) + 128 ^ (nthByte + 1) * (m / 128) := by
    conv_lhs => rw [← Nat.mod_add_div m 128]
    ring
  have hnth' : nthByte + 1 < maxEncodingLength := by
    by_contra hlast
    have htwo : nthByte = 2 := by
      simp only [maxEncodingLength] at hnth hlast
      omega
    subst htwo
    simp only [u16Max] at hfits
    omega
  have hzero : ¬ (UInt8.ofNat (m % 128) ||| 0x80 = 0 ∧ nthByte ≠ 0) := by
    rintro ⟨hzero, -⟩
    rw [hzero] at hbyte
    cases hbyte
  refine ⟨hnth', ?_, add_digit_lt hval hmod, by omega⟩
  rw [visitByte_eq hnth hval, hbyte, Nat.add_mod_right, Nat.mod_mod, if_neg hzero,
    if_neg (by simp only [maxEncodingLength] at hnth'; omega), if_neg (by omega), if_neg (by omega)]

lemma visitSeq_serialize {left : Nat} (hleft : left + nthByte = maxEncodingLength)
    (hnth : nthByte < maxEncodingLength) (hval : val < 128 ^ nthByte) (hm : nthByte ≠ 0 → m ≠ 0)
    (hfits : val + 128 ^ nthByte * m ≤ u16Max) (rest : ByteString) :
    visitSeq left nthByte val (serializeShortU16 m ++ rest) =
      .ok (val + 128 ^ nthByte * m, rest) := by
  induction left generalizing nthByte val m with
  | zero => omega
  | succ left ih =>
    by_cases hsmall : m < 128
    · rw [serializeShortU16_of_lt hsmall, List.singleton_append, visitSeq,
        visitByte_last hnth hval hm hfits hsmall]
      rfl
    · have hle := Nat.not_lt.1 hsmall
      obtain ⟨hnth', hvisit, hval', hsum⟩ := visitByte_more hnth hval hfits hle
      rw [serializeShortU16_of_le hle, List.cons_append, visitSeq, hvisit]
      change visitSeq left (nthByte + 1) _ _ = _
      rw [ih (by omega) hnth' hval' (fun _ => by omega) (by omega), hsum]

lemma visitSeq_eq_ok_iff {input rest : ByteString} :
    visitSeq maxEncodingLength 0 0 input = .ok (n, rest) ↔
      n ≤ u16Max ∧ input = serializeShortU16 n ++ rest := by
  constructor
  · intro h
    obtain ⟨hle, m, rfl, -, rfl⟩ := visitSeq_eq_ok rfl (by decide) h
    rw [pow_zero, Nat.one_mul, Nat.zero_add] at hle ⊢
    exact ⟨hle, rfl⟩
  · rintro ⟨hle, rfl⟩
    have hread := @visitSeq_serialize 0 0 n maxEncodingLength rfl (by decide) (by decide)
      (fun hne => absurd rfl hne) (by omega) rest
    rwa [Nat.zero_add, pow_zero, Nat.one_mul] at hread

/-- The bytes that are read are those that the visitor of the deserializer takes. -/
lemma decodeLoop_eq_some {left k : Nat} {bytes : ByteString} :
    decodeLoop nthByte val (bytes.take left) = some (n, k) ↔
      ∃ rest, visitSeq left nthByte val bytes = .ok (n, rest) ∧
        k + rest.length = nthByte + bytes.length := by
  induction left generalizing nthByte val bytes with
  | zero => simp [decodeLoop, visitSeq]
  | succ left ih =>
    cases bytes with
    | nil => simp [decodeLoop, visitSeq]
    | cons byte bytes =>
      rw [List.take_succ_cons, decodeLoop, visitSeq]
      rcases visitByte byte val nthByte with e | newVal | newVal
      · simp [bind, Except.bind]
      · simp [bind, Except.bind]
        omega
      · simp [bind, Except.bind, ih, Nat.add_right_comm, Nat.add_assoc]

lemma decodeShortu16Len_serialize (hfits : n ≤ u16Max) (rest : ByteString) :
    decodeShortu16Len (serializeShortU16 n ++ rest) = some (n, (serializeShortU16 n).length) := by
  refine decodeLoop_eq_some.2 ⟨rest, visitSeq_eq_ok_iff.2 ⟨hfits, rfl⟩, ?_⟩
  rw [List.length_append, Nat.zero_add]

lemma length_serializeShortU16_pos (n : Nat) : 0 < (serializeShortU16 n).length := by
  rw [serializeShortU16]
  split_ifs <;> exact Nat.succ_pos _

/-- `ShortU16`. -/
def shortU16 : Codec Nat where
  write n := if n ≤ u16Max then some (serializeShortU16 n) else none
  read input := (visitSeq maxEncodingLength 0 0 input).toOption
  canonical h := by
    obtain ⟨hle, rfl⟩ := visitSeq_eq_ok_iff.1 (toOption_eq_some.1 h)
    exact ⟨_, if_pos hle, rfl⟩

lemma shortU16_exact : shortU16.Exact := by
  intro n bytes rest h
  change (if _ then _ else _) = _ at h
  split_ifs at h with hle
  cases h
  exact toOption_eq_some.2 (visitSeq_eq_ok_iff.2 ⟨hle, rfl⟩)

/-- `#[serde(with = "short_vec")]`. -/
def shortVec {α : Type} (c : Codec α) : Codec (List α) := Codec.counted shortU16 c

lemma write_shortVec_eq_some {α : Type} {c : Codec α} {xs : List α} {bytes : ByteString} :
    (shortVec c).write xs = some bytes ↔ xs.length ≤ u16Max ∧
      ∃ back, c.writeAll xs = some back ∧ bytes = serializeShortU16 xs.length ++ back := by
  rw [shortVec, Codec.write_counted_eq_some]
  constructor
  · rintro ⟨front, back, hfront, hback, rfl⟩
    change (if _ then _ else _) = _ at hfront
    split_ifs at hfront with hle
    cases hfront
    exact ⟨hle, back, hback, rfl⟩
  · rintro ⟨hle, back, hback, rfl⟩
    exact ⟨serializeShortU16 xs.length, back, if_pos hle, hback, rfl⟩

end ShortVec

end Nuah
