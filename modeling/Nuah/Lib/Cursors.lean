import Nuah.Lib.ExactCodecs

/-!
# Cursors

A position in a byte string, from which codecs read. Codecs of a known width, and lower bounds on
what a codec reads.
-/

namespace Codecs

open ByteStrings List Option

structure Cursor where
  input : ByteString
  position : Nat

namespace Cursor

variable {α β : Type} {c : Codec α}

/-- The bytes from the position on. -/
def rest (cursor : Cursor) : ByteString := cursor.input.drop cursor.position

def leave (cursor : Cursor) (rest : ByteString) : Cursor :=
  { cursor with position := cursor.input.length - rest.length }

lemma rest_leave {cursor : Cursor} {bytes rest : ByteString} (h : cursor.rest = bytes ++ rest) :
    (cursor.leave rest).rest = rest := by
  have hsuffix : bytes ++ rest <:+ cursor.input := by
    rw [← h]
    exact drop_suffix cursor.position cursor.input
  obtain ⟨front, hfront⟩ := (suffix_append bytes rest).trans hsuffix
  unfold leave Cursor.rest
  dsimp only
  rw [← hfront, length_append, Nat.add_sub_cancel, drop_left]

def decode (c : Codec α) (cursor : Cursor) : Option (α × Cursor) :=
  (c.read cursor.rest).map fun (x, rest) => (x, cursor.leave rest)

lemma decode_map (c : Codec α) (f : α → β) (g : β → α) (hinverse : ∀ x, g (f x) = x)
    (cursor : Cursor) :
    cursor.decode (c.map f g hinverse) = (cursor.decode c).map fun (x, cursor) => (f x, cursor) := by
  change ((c.read cursor.rest).map _).map _ = ((c.read cursor.rest).map _).map _
  rw [Option.map_map, Option.map_map]
  rfl

lemma position_le_of_decode {cursor cursor' : Cursor} {x : α}
    (h : cursor.decode c = some (x, cursor')) : cursor'.position ≤ cursor'.input.length := by
  obtain ⟨⟨y, rest⟩, -, h⟩ := map_eq_some_iff.1 h
  obtain ⟨-, rfl⟩ := Prod.mk.inj h
  exact Nat.sub_le _ _

lemma decode_pair {d : Codec β} (cursor : Cursor) :
    cursor.decode (c.pair d) = (cursor.decode c).bind fun (x, cursor) =>
      (cursor.decode d).map fun (y, cursor) => ((x, y), cursor) := by
  change (((c.read cursor.rest).bind fun (x, input) => (d.read input).bind fun (y, rest) =>
    some ((x, y), rest)).map _) = ((c.read cursor.rest).map _).bind _
  cases hread : c.read cursor.rest with
  | none => rfl
  | some found =>
    obtain ⟨x, input⟩ := found
    obtain ⟨bytes, -, hbytes⟩ := c.canonical hread
    simp only [bind_some, map_some]
    unfold decode
    rw [rest_leave hbytes]
    cases d.read input <;> rfl

def decodeMany (c : Codec α) : Nat → Cursor → Option (List α × Cursor)
  | 0, cursor => some ([], cursor)
  | n + 1, cursor => (cursor.decode c).bind fun (x, cursor) =>
    (decodeMany c n cursor).map fun (xs, cursor) => (x :: xs, cursor)

lemma decode_readMany (c : Codec α) (n : Nat) (cursor : Cursor)
    (hend : cursor.position ≤ cursor.input.length) :
    ((c.readMany n cursor.rest).map fun (xs, rest) => (xs, cursor.leave rest)) =
      decodeMany c n cursor := by
  induction n generalizing cursor with
  | zero =>
    have hself : cursor.leave cursor.rest = cursor := by
      unfold leave Cursor.rest
      rw [length_drop, Nat.sub_sub_self hend]
    change some ([], cursor.leave cursor.rest) = some ([], cursor)
    rw [hself]
  | succ n ih =>
    change (((c.read cursor.rest).bind _).map _) = ((c.read cursor.rest).map _).bind _
    cases hread : c.read cursor.rest with
    | none => rfl
    | some found =>
      obtain ⟨x, input⟩ := found
      obtain ⟨bytes, -, hbytes⟩ := c.canonical hread
      simp only [bind_some, map_some]
      have hih := ih (cursor.leave input) (Nat.sub_le _ _)
      rw [rest_leave hbytes] at hih
      rw [← hih]
      cases c.readMany n input <;> rfl

lemma decode_replicated (c : Codec α) (n : Nat) (cursor : Cursor)
    (hend : cursor.position ≤ cursor.input.length) :
    cursor.decode (Codec.replicated n c) = decodeMany c n cursor := decode_readMany c n cursor hend

lemma decode_counted (length : Codec Nat) (c : Codec α) (cursor : Cursor) :
    cursor.decode (Codec.counted length c) =
      (cursor.decode length).bind fun (n, cursor) => decodeMany c n cursor := by
  change (((length.read cursor.rest).bind _).map _) =
    ((length.read cursor.rest).map _).bind _
  cases hread : length.read cursor.rest with
  | none => rfl
  | some found =>
    obtain ⟨n, input⟩ := found
    obtain ⟨bytes, -, hbytes⟩ := length.canonical hread
    simp only [bind_some, map_some]
    rw [← decode_readMany c n (cursor.leave input) (Nat.sub_le _ _), rest_leave hbytes]
    rfl

end Cursor

namespace Codec

variable {α β : Type} {n m : Nat} {c : Codec α}

def Total (c : Codec α) (n : Nat) : Prop :=
  ∀ input, (n ≤ input.length → ∃ x, c.read input = some (x, input.drop n)) ∧
    (input.length < n → c.read input = none)

def AtLeast (c : Codec α) (n : Nat) : Prop :=
  ∀ {input x rest}, c.read input = some (x, rest) → rest.length + n ≤ input.length

lemma readBytes_total (input : ByteString) :
    (n ≤ input.length → readBytes n input = some (input.take n, input.drop n)) ∧
      (input.length < n → readBytes n input = none) :=
  ⟨fun h => if_pos h, fun h => if_neg (Nat.not_le.2 h)⟩

lemma total_of_readBytes {f : ByteString → α}
    (h : ∀ input, c.read input = (readBytes n input).map fun p => (f p.1, p.2)) : c.Total n := by
  intro input
  rw [h input]
  refine ⟨fun hle => ⟨f (input.take n), ?_⟩, fun hlt => ?_⟩
  · exact map_eq_some_iff.2 ⟨_, (readBytes_total input).1 hle, rfl⟩
  · exact map_eq_none_iff.2 ((readBytes_total input).2 hlt)

lemma word_total (n : Nat) : (word n).Total n := total_of_readBytes fun _ => rfl

lemma bigEndian_total (n : Nat) : (bigEndian n).Total n :=
  total_of_readBytes (f := fun bytes => ofLeBytes bytes.reverse) fun _ => rfl

lemma pair_total {a : Codec α} {b : Codec β} (ha : a.Total n) (hb : b.Total m) :
    (a.pair b).Total (n + m) := by
  intro input
  have hread : (a.pair b).read input = (a.read input).bind fun (x, input) =>
    (b.read input).bind fun (y, rest) => some ((x, y), rest) := rfl
  rw [hread]
  constructor
  · intro h
    obtain ⟨x, hx⟩ := (ha input).1 (by omega)
    obtain ⟨y, hy⟩ := (hb (input.drop n)).1 (by rw [length_drop]; omega)
    refine ⟨(x, y), ?_⟩
    rw [hx, bind_some]
    dsimp only
    rw [hy, drop_drop]
    rfl
  · intro h
    rcases Nat.lt_or_ge input.length n with hlt | hge
    · rw [(ha input).2 hlt]
      rfl
    · obtain ⟨x, hx⟩ := (ha input).1 hge
      rw [hx, bind_some]
      dsimp only
      rw [(hb (input.drop n)).2 (by rw [length_drop]; omega)]
      rfl

lemma replicated_total (h : c.Total n) (k : Nat) : (replicated k c).Total (k * n) := by
  induction k with
  | zero =>
    intro input
    refine ⟨fun _ => ⟨[], ?_⟩, fun hlt => absurd hlt (by omega)⟩
    rw [Nat.zero_mul, drop_zero]
    rfl
  | succ k ih =>
    -- one element, and then the others
    have hpair := pair_total h ih
    intro input
    have hread : (replicated (k + 1) c).read input =
        ((c.pair (replicated k c)).read input).map fun (x, rest) => (x.1 :: x.2, rest) := by
      change ((c.read input).bind _) = (((c.read input).bind _).map _)
      cases c.read input with
      | none => rfl
      | some found =>
        change ((c.readMany k found.2).bind _) = (((c.readMany k found.2).bind _).map _)
        cases c.readMany k found.2 <;> rfl
    rw [hread, Nat.succ_mul, Nat.add_comm (k * n)]
    constructor
    · intro hle
      obtain ⟨x, hx⟩ := (hpair input).1 hle
      exact ⟨x.1 :: x.2, map_eq_some_iff.2 ⟨_, hx, rfl⟩⟩
    · intro hlt
      exact map_eq_none_iff.2 ((hpair input).2 hlt)

lemma Total.atLeast (h : c.Total n) : c.AtLeast n := by
  intro input x rest hread
  rcases Nat.lt_or_ge input.length n with hlt | hge
  · rw [(h input).2 hlt] at hread
    cases hread
  · obtain ⟨y, hy⟩ := (h input).1 hge
    rw [hy] at hread
    obtain ⟨-, rfl⟩ := Prod.mk.inj (Option.some.inj hread)
    rw [length_drop]
    omega

lemma pair_atLeast {a : Codec α} {b : Codec β} (ha : a.AtLeast n) (hb : b.AtLeast m) :
    (a.pair b).AtLeast (n + m) := by
  intro input x rest hread
  obtain ⟨⟨y, input'⟩, hy, hread⟩ := bind_eq_some_iff.1 hread
  obtain ⟨⟨z, rest'⟩, hz, hread⟩ := bind_eq_some_iff.1 hread
  obtain ⟨-, rfl⟩ := Prod.mk.inj (Option.some.inj hread)
  have hleft := ha hy
  have hright := hb hz
  omega

lemma map_atLeast (h : c.AtLeast n) {f : α → β} {g : β → α}
    (hinverse : ∀ x, g (f x) = x) : (c.map f g hinverse).AtLeast n := by
  intro input y rest hread
  obtain ⟨⟨x, rest'⟩, hx, hread⟩ := map_eq_some_iff.1 hread
  obtain ⟨-, rfl⟩ := Prod.mk.inj hread
  exact h hx

lemma convert_atLeast (h : c.AtLeast n) {f : α → Option β} {g : β → Option α}
    (hback : ∀ {x y}, f x = some y → g y = some x) : (c.convert f g hback).AtLeast n := by
  intro input y rest hread
  obtain ⟨⟨x, rest'⟩, hx, hread⟩ := bind_eq_some_iff.1 hread
  obtain ⟨z, -, hread⟩ := map_eq_some_iff.1 hread
  obtain ⟨-, rfl⟩ := Prod.mk.inj hread
  exact h hx

lemma counted_atLeast {length : Codec Nat} (h : length.AtLeast n) (c : Codec α) :
    (counted length c).AtLeast n := by
  intro input xs rest hread
  obtain ⟨⟨k, input'⟩, hk, hread⟩ := bind_eq_some_iff.1 hread
  obtain ⟨-, bytes, -, hbytes⟩ := c.readMany_canonical hread
  have hlength := h hk
  have happend := congrArg List.length hbytes
  rw [length_append] at happend
  omega

lemma option_atLeast (c : Codec α) : c.option.AtLeast 1 := by
  intro input x rest hread
  obtain ⟨bytes, hbytes, rfl⟩ := c.option.canonical hread
  have hne : bytes ≠ [] := by
    rintro rfl
    cases x with
    | none => cases hbytes
    | some x =>
      obtain ⟨_, -, hcons⟩ := map_eq_some_iff.1 hbytes
      cases hcons
  have hpos := length_pos_iff.2 hne
  rw [length_append]
  omega

lemma byte_total : byte.Total 1 := by
  intro input
  cases input with
  | nil => exact ⟨fun h => absurd h (by decide), fun _ => rfl⟩
  | cons b input => exact ⟨fun _ => ⟨b, rfl⟩, fun h => absurd h (by simp)⟩

end Codec

end Codecs
