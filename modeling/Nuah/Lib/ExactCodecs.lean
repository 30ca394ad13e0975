import Nuah.Lib.Codecs

/-!
# Exact codecs

A codec is exact if it reads back what it writes, whatever follows. Words, options and partial
conversions of codecs, and that exactness is kept.
-/

namespace Codecs

open ByteStrings Option

namespace Codec

variable {α β : Type}

variable {a c : Codec α} {b : Codec β} {xs : List α} {bits : Nat} {i : Int}

def Exact (c : Codec α) : Prop :=
  ∀ {x bytes} (rest : ByteString), c.write x = some bytes → c.read (bytes ++ rest) = some (x, rest)

def word (width : Nat) : Codec Nat where
  write n := if n < 256 ^ width then some (leBytes width n) else none
  read input := (readBytes width input).map fun (bytes, rest) => (ofLeBytes bytes, rest)
  canonical := by
    intro input n rest h
    obtain ⟨⟨bytes, rest'⟩, hread, h⟩ := map_eq_some_iff.1 h
    cases h
    obtain ⟨rfl, rfl⟩ := readBytes_eq_some hread
    exact ⟨bytes, by rw [if_pos (ofLeBytes_lt bytes), leBytes_ofLeBytes], rfl⟩

variable (width : Nat)

lemma word_exact : (word width).Exact := by
  intro n bytes rest h
  change (if _ then _ else _) = _ at h
  split_ifs at h with hlt
  cases h
  change (readBytes width _).map _ = _
  rw [readBytes_append (length_leBytes width n), map_some]
  dsimp only
  rw [ofLeBytes_leBytes, Nat.mod_eq_of_lt hlt]

def bigEndian (width : Nat) : Codec Nat where
  write n := if n < 256 ^ width then some (leBytes width n).reverse else none
  read input := (readBytes width input).map fun (bytes, rest) => (ofLeBytes bytes.reverse, rest)
  canonical := by
    intro input n rest h
    obtain ⟨⟨bytes, rest'⟩, hread, h⟩ := map_eq_some_iff.1 h
    cases h
    obtain ⟨rfl, rfl⟩ := readBytes_eq_some hread
    have hlt := ofLeBytes_lt bytes.reverse
    have hbytes := leBytes_ofLeBytes bytes.reverse
    rw [List.length_reverse] at hlt hbytes
    exact ⟨bytes, by rw [if_pos hlt, hbytes, List.reverse_reverse], rfl⟩

lemma bigEndian_exact : (bigEndian width).Exact := by
  intro n bytes rest h
  change (if _ then _ else _) = _ at h
  split_ifs at h with hlt
  cases h
  have hlength : (leBytes width n).reverse.length = width := by
    rw [List.length_reverse, length_leBytes]
  change (readBytes width _).map _ = _
  rw [readBytes_append hlength, map_some]
  dsimp only
  rw [List.reverse_reverse, ofLeBytes_leBytes, Nat.mod_eq_of_lt hlt]

lemma byte_exact : byte.Exact := by
  intro x bytes rest h
  cases h
  rfl

lemma pair_exact (ha : a.Exact) (hb : b.Exact) : (a.pair b).Exact := by
  intro x bytes rest h
  obtain ⟨front, back, hfront, hback, rfl⟩ := write_pair_eq_some.1 h
  change ((a.read _).bind _) = _
  rw [List.append_assoc, ha _ hfront, bind_some]
  change ((b.read _).bind _) = _
  rw [hb _ hback]
  rfl

def option (c : Codec α) : Codec (Option α) where
  write
    | none => some [0]
    | some x => (c.write x).map (1 :: ·)
  read
    | [] => none
    | tag :: input =>
      if tag = 0 then some (none, input)
      else if tag = 1 then (c.read input).map fun (x, rest) => (some x, rest)
      else none
  canonical := by
    intro input x rest h
    cases input with
    | nil => cases h
    | cons tag input =>
      dsimp only at h
      split_ifs at h with hzero hone
      · cases h
        exact ⟨[0], rfl, by rw [hzero]; rfl⟩
      · obtain ⟨⟨y, rest'⟩, hy, h⟩ := map_eq_some_iff.1 h
        cases h
        obtain ⟨bytes, hbytes, rfl⟩ := c.canonical hy
        refine ⟨1 :: bytes, ?_, by rw [hone]; rfl⟩
        change (c.write y).map (1 :: ·) = _
        rw [hbytes]
        rfl

lemma option_exact (h : c.Exact) : c.option.Exact := by
  intro x bytes rest hwrite
  cases x with
  | none =>
    cases hwrite
    rfl
  | some x =>
    obtain ⟨bytes, hbytes, rfl⟩ := map_eq_some_iff.1 hwrite
    change (c.read (bytes ++ rest)).map _ = _
    rw [h rest hbytes]
    rfl

lemma write_pair_isSome_iff {x : α × β} :
    (∃ bytes, (a.pair b).write x = some bytes) ↔
      (∃ bytes, a.write x.1 = some bytes) ∧ ∃ bytes, b.write x.2 = some bytes := by
  constructor
  · rintro ⟨_, hwrite⟩
    obtain ⟨front, back, hfront, hback, -⟩ := write_pair_eq_some.1 hwrite
    exact ⟨⟨front, hfront⟩, back, hback⟩
  · rintro ⟨⟨front, hfront⟩, back, hback⟩
    exact ⟨front ++ back, write_pair_eq_some.2 ⟨front, back, hfront, hback, rfl⟩⟩

lemma write_option_isSome_iff {x : Option α} :
    (∃ bytes, c.option.write x = some bytes) ↔ ∀ y, x = some y → ∃ bytes, c.write y = some bytes := by
  cases x with
  | none => exact ⟨fun _ _ h => absurd h (by simp), fun _ => ⟨[0], rfl⟩⟩
  | some x =>
    constructor
    · rintro ⟨_, hwrite⟩ y ⟨⟩
      obtain ⟨bytes, hbytes, -⟩ := map_eq_some_iff.1 hwrite
      exact ⟨bytes, hbytes⟩
    · intro h
      obtain ⟨bytes, hbytes⟩ := h x rfl
      exact ⟨1 :: bytes, map_eq_some_iff.2 ⟨bytes, hbytes, rfl⟩⟩

lemma writeAll_isSome_iff :
    (∃ bytes, c.writeAll xs = some bytes) ↔ ∀ x ∈ xs, ∃ bytes, c.write x = some bytes := by
  induction xs with
  | nil => exact ⟨fun _ _ h => absurd h List.not_mem_nil, fun _ => ⟨[], rfl⟩⟩
  | cons x xs ih =>
    rw [List.forall_mem_cons, ← ih]
    constructor
    · rintro ⟨bytes, hbytes⟩
      obtain ⟨front, hfront, hbytes⟩ := bind_eq_some_iff.1 hbytes
      obtain ⟨back, hback, -⟩ := bind_eq_some_iff.1 hbytes
      exact ⟨⟨front, hfront⟩, back, hback⟩
    · rintro ⟨⟨front, hfront⟩, back, hback⟩
      refine ⟨front ++ back, ?_⟩
      change ((c.write x).bind fun front => (c.writeAll xs).bind fun back => some (front ++ back)) = _
      rw [hfront, bind_some, hback, bind_some]

lemma readMany_writeAll (h : c.Exact) {bytes : ByteString} (hwrite : c.writeAll xs = some bytes)
    (rest : ByteString) :
    c.readMany xs.length (bytes ++ rest) = some (xs, rest) := by
  induction xs generalizing bytes with
  | nil =>
    cases hwrite
    rfl
  | cons x xs ih =>
    obtain ⟨front, hfront, hwrite⟩ := bind_eq_some_iff.1 hwrite
    obtain ⟨back, hback, hwrite⟩ := bind_eq_some_iff.1 hwrite
    cases hwrite
    change ((c.read _).bind _) = _
    rw [List.append_assoc, h _ hfront, bind_some]
    change ((c.readMany xs.length _).bind _) = _
    rw [ih hback]
    rfl

lemma counted_exact {length : Codec Nat} (hlength : length.Exact) (h : c.Exact) :
    (counted length c).Exact := by
  intro xs bytes rest hwrite
  obtain ⟨front, back, hfront, hback, rfl⟩ := write_counted_eq_some.1 hwrite
  change ((length.read _).bind _) = _
  rw [List.append_assoc, hlength _ hfront, bind_some]
  exact readMany_writeAll h hback rest

def replicated (n : Nat) (c : Codec α) : Codec (List α) where
  write xs := if xs.length = n then c.writeAll xs else none
  read input := c.readMany n input
  canonical := by
    intro input xs rest h
    obtain ⟨rfl, bytes, hbytes, hinput⟩ := c.readMany_canonical h
    exact ⟨bytes, by rw [if_pos rfl]; exact hbytes, hinput⟩

lemma replicated_exact (h : c.Exact) (n : Nat) : (replicated n c).Exact := by
  intro xs bytes rest hwrite
  change (if _ then _ else _) = _ at hwrite
  split_ifs at hwrite with hlength
  subst hlength
  exact readMany_writeAll h hwrite rest

/-- A codec for the values that those of another one are converted to. -/
def convert (c : Codec α) (f : α → Option β) (g : β → Option α)
    (hback : ∀ {x y}, f x = some y → g y = some x) : Codec β where
  write y := (g y).bind c.write
  read input := (c.read input).bind fun (x, rest) => (f x).map fun y => (y, rest)
  canonical := by
    intro input y rest h
    obtain ⟨⟨x, rest'⟩, hx, h⟩ := bind_eq_some_iff.1 h
    obtain ⟨z, hz, h⟩ := map_eq_some_iff.1 h
    cases h
    rw [hback hz]
    exact c.canonical hx

lemma convert_exact (h : c.Exact) {f : α → Option β} {g : β → Option α}
    (hback : ∀ {x y}, f x = some y → g y = some x) (hforth : ∀ {x y}, g y = some x → f x = some y) :
    (c.convert f g hback).Exact := by
  intro y bytes rest hwrite
  obtain ⟨x, hx, hwrite⟩ := bind_eq_some_iff.1 hwrite
  change ((c.read _).bind _) = _
  rw [h rest hwrite, bind_some]
  dsimp only
  rw [hforth hx]
  rfl

lemma map_exact (h : c.Exact) {f : α → β} {g : β → α} (hinverse : ∀ x, g (f x) = x)
    (hforth : ∀ y, f (g y) = y) : (c.map f g hinverse).Exact := by
  intro y bytes rest hwrite
  change (c.read _).map _ = _
  rw [h rest hwrite, map_some]
  dsimp only
  rw [hforth]

def boolOfByte (b : UInt8) : Option Bool :=
  if b = 0 then some false else if b = 1 then some true else none

def byteOfBool (x : Bool) : Option UInt8 := some (if x then 1 else 0)

lemma boolOfByte_iff {b : UInt8} {x : Bool} : boolOfByte b = some x ↔ byteOfBool x = some b := by
  revert b x
  decide +kernel

def bool : Codec Bool := byte.convert boolOfByte byteOfBool boolOfByte_iff.1

lemma bool_exact : bool.Exact := convert_exact byte_exact boolOfByte_iff.1 boolOfByte_iff.2

def ofTwosComplement (bits n : Nat) : Option Int :=
  if 2 * n < 2 ^ bits then some n
  else if n < 2 ^ bits then some (n - 2 ^ bits)
  else none

def toTwosComplement (bits : Nat) (i : Int) : Option Nat :=
  if 0 ≤ i ∧ 2 * i < 2 ^ bits then some i.toNat
  else if i < 0 ∧ -2 ^ bits ≤ 2 * i then some (i + 2 ^ bits).toNat
  else none

lemma twosComplement_iff {n : Nat} :
    ofTwosComplement bits n = some i ↔ toTwosComplement bits i = some n := by
  have hpow : ((2 ^ bits : Nat) : Int) = 2 ^ bits := by push_cast; rfl
  unfold ofTwosComplement toTwosComplement
  rw [← hpow]
  generalize 2 ^ bits = m
  split_ifs <;> simp only [Option.some.injEq, iff_false, false_iff] <;> omega

lemma toTwosComplement_isSome_iff :
    (∃ n < 2 ^ bits, toTwosComplement bits i = some n) ↔ -2 ^ bits ≤ 2 * i ∧ 2 * i < 2 ^ bits := by
  have hpow : ((2 ^ bits : Nat) : Int) = 2 ^ bits := by push_cast; rfl
  have hpos := Nat.two_pow_pos bits
  unfold toTwosComplement
  rw [← hpow]
  generalize 2 ^ bits = m at hpos ⊢
  constructor
  · rintro ⟨n, hn, h⟩
    split_ifs at h <;> omega
  · rintro ⟨hlow, hhigh⟩
    by_cases hsign : 0 ≤ i
    · exact ⟨i.toNat, by omega, if_pos ⟨hsign, hhigh⟩⟩
    · refine ⟨(i + m).toNat, by omega, ?_⟩
      rw [if_neg (by omega), if_pos (by omega)]

def signedWord (width : Nat) : Codec Int :=
  (word width).convert (ofTwosComplement (8 * width)) (toTwosComplement (8 * width))
    twosComplement_iff.1

lemma write_signedWord_isSome_iff {width : Nat} :
    (∃ bytes, (signedWord width).write i = some bytes) ↔
      -2 ^ (8 * width) ≤ 2 * i ∧ 2 * i < 2 ^ (8 * width) := by
  rw [← toTwosComplement_isSome_iff]
  have hpow : 256 ^ width = 2 ^ (8 * width) := by rw [pow_mul]; rfl
  constructor
  · rintro ⟨bytes, hwrite⟩
    obtain ⟨n, hn, hwrite⟩ := bind_eq_some_iff.1 hwrite
    change (if _ then _ else _) = _ at hwrite
    split_ifs at hwrite with hlt
    exact ⟨n, hpow ▸ hlt, hn⟩
  · rintro ⟨n, hlt, hn⟩
    exact ⟨leBytes width n, bind_eq_some_iff.2 ⟨n, hn, if_pos (hpow ▸ hlt)⟩⟩

lemma signedWord_exact : (signedWord width).Exact :=
  convert_exact (word_exact width) twosComplement_iff.1 twosComplement_iff.2

end Codec

end Codecs
