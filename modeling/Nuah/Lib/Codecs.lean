import Nuah.Lib.ByteStrings

/-!
# Codecs

A codec writes values as byte strings and reads them off the front of byte strings. Its law is that
the bytes that are read are the ones that are written for the value, so that every value has one
representation.
-/

namespace Codecs

open ByteStrings List Option

abbrev FixedBytes (n : Nat) := { bytes : ByteString // bytes.length = n }

structure Codec (α : Type) where
  /-- The bytes of a value, if the value can be written. -/
  write : α → Option ByteString
  /-- A value and the bytes after it. -/
  read : ByteString → Option (α × ByteString)
  canonical : ∀ {input x rest}, read input = some (x, rest) →
    ∃ bytes, write x = some bytes ∧ input = bytes ++ rest

namespace Codec

variable {α β : Type}

def byte : Codec UInt8 where
  write x := some [x]
  read
    | [] => none
    | x :: rest => some (x, rest)
  canonical := by
    intro input x rest h
    cases input with
    | nil => cases h
    | cons y input =>
      obtain ⟨rfl, rfl⟩ := Prod.mk.inj (Option.some.inj h)
      exact ⟨[y], rfl, rfl⟩

def array (n : Nat) : Codec (FixedBytes n) where
  write x := some x.1
  read input :=
    if h : n ≤ input.length then
      some (⟨input.take n, length_take_of_le h⟩, input.drop n)
    else none
  canonical := by
    intro input x rest h
    split_ifs at h with hle
    cases h
    exact ⟨input.take n, rfl, (take_append_drop n input).symm⟩

def pair (a : Codec α) (b : Codec β) : Codec (α × β) where
  write x := do
    let front ← a.write x.1
    let back ← b.write x.2
    some (front ++ back)
  read input := do
    let (x, input) ← a.read input
    let (y, rest) ← b.read input
    some ((x, y), rest)
  canonical := by
    intro input x rest h
    obtain ⟨⟨y, input₁⟩, hy, h⟩ := bind_eq_some_iff.1 h
    obtain ⟨⟨z, input₂⟩, hz, h⟩ := bind_eq_some_iff.1 h
    cases h
    obtain ⟨front, hfront, rfl⟩ := a.canonical hy
    obtain ⟨back, hback, hinput⟩ := b.canonical hz
    refine ⟨front ++ back, ?_, ?_⟩
    · change ((a.write y).bind fun front => (b.write z).bind fun back => some (front ++ back)) = _
      rw [hfront, bind_some, hback, bind_some]
    · rw [append_assoc, ← hinput]

/-- The values of another type that stand for those of the codec. -/
def map (c : Codec α) (f : α → β) (g : β → α) (hinverse : ∀ x, g (f x) = x) : Codec β where
  write y := c.write (g y)
  read input := (c.read input).map fun (x, rest) => (f x, rest)
  canonical := by
    intro input y rest h
    obtain ⟨⟨x, rest'⟩, hx, h⟩ := map_eq_some_iff.1 h
    cases h
    rw [hinverse]
    exact c.canonical hx

def writeAll (c : Codec α) : List α → Option ByteString
  | [] => some []
  | x :: xs => do
    let front ← c.write x
    let back ← writeAll c xs
    some (front ++ back)

def readMany (c : Codec α) : Nat → ByteString → Option (List α × ByteString)
  | 0, input => some ([], input)
  | n + 1, input => do
    let (x, input) ← c.read input
    let (xs, rest) ← readMany c n input
    some (x :: xs, rest)

lemma readMany_canonical (c : Codec α) {n : Nat} {input rest : ByteString} {xs : List α}
    (h : c.readMany n input = some (xs, rest)) :
    xs.length = n ∧ ∃ bytes, c.writeAll xs = some bytes ∧ input = bytes ++ rest := by
  induction n generalizing input xs with
  | zero =>
    cases h
    exact ⟨rfl, [], rfl, rfl⟩
  | succ n ih =>
    obtain ⟨⟨x, input₁⟩, hx, h⟩ := bind_eq_some_iff.1 h
    obtain ⟨⟨xs, rest'⟩, hxs, h⟩ := bind_eq_some_iff.1 h
    cases h
    obtain ⟨front, hfront, rfl⟩ := c.canonical hx
    obtain ⟨hlength, back, hback, hinput⟩ := ih hxs
    refine ⟨congrArg (· + 1) hlength, front ++ back, ?_, ?_⟩
    · change ((c.write x).bind fun front => (c.writeAll xs).bind fun back => some (front ++ back)) = _
      rw [hfront, bind_some, hback, bind_some]
    · rw [append_assoc, ← hinput]

def counted (length : Codec Nat) (c : Codec α) : Codec (List α) where
  write xs := do
    let front ← length.write xs.length
    let back ← c.writeAll xs
    some (front ++ back)
  read input := do
    let (n, input) ← length.read input
    c.readMany n input
  canonical := by
    intro input xs rest h
    obtain ⟨⟨n, input₁⟩, hn, hmany⟩ := bind_eq_some_iff.1 h
    obtain ⟨front, hfront, rfl⟩ := length.canonical hn
    obtain ⟨rfl, back, hback, hinput⟩ := c.readMany_canonical hmany
    refine ⟨front ++ back, ?_, ?_⟩
    · change ((length.write xs.length).bind fun front =>
        (c.writeAll xs).bind fun back => some (front ++ back)) = _
      rw [hfront, bind_some, hback, bind_some]
    · rw [append_assoc, ← hinput]

def readAll (c : Codec α) (input : ByteString) : Option α :=
  match c.read input with
  | some (x, []) => some x
  | _ => none

lemma readAll_canonical (c : Codec α) {input : ByteString} {x : α} (h : c.readAll input = some x) :
    c.write x = some input := by
  unfold readAll at h
  split at h
  · rename_i y hread
    cases h
    obtain ⟨bytes, hbytes, rfl⟩ := c.canonical hread
    rw [append_nil]
    exact hbytes
  · cases h

variable {bytes : ByteString}

lemma bind_append_eq_some {x y : Option ByteString} :
    (x.bind fun front => y.bind fun back => some (front ++ back)) = some bytes ↔
      ∃ front back, x = some front ∧ y = some back ∧ bytes = front ++ back := by
  simp only [bind_eq_some_iff, Option.some.injEq]
  constructor
  · rintro ⟨front, hfront, back, hback, rfl⟩
    exact ⟨front, back, hfront, hback, rfl⟩
  · rintro ⟨front, back, hfront, hback, rfl⟩
    exact ⟨front, hfront, back, hback, rfl⟩

lemma write_pair_eq_some {a : Codec α} {b : Codec β} {x : α × β} :
    (a.pair b).write x = some bytes ↔
      ∃ front back, a.write x.1 = some front ∧ b.write x.2 = some back ∧ bytes = front ++ back :=
  bind_append_eq_some

lemma write_counted_eq_some {length : Codec Nat} {c : Codec α} {xs : List α} :
    (counted length c).write xs = some bytes ↔
      ∃ front back, length.write xs.length = some front ∧ c.writeAll xs = some back ∧
        bytes = front ++ back :=
  bind_append_eq_some

lemma writeAll_array {n : Nat} (xs : List (FixedBytes n)) :
    (array n).writeAll xs = some (xs.flatMap Subtype.val) := by
  induction xs with
  | nil => rfl
  | cons x xs ih =>
    change ((array n).writeAll xs).bind (fun back => some (x.1 ++ back)) = _
    rw [ih]
    rfl

end Codec

section

variable {n : Nat}

lemma length_flatMap_val (xs : List (FixedBytes n)) :
    (xs.flatMap Subtype.val).length = n * xs.length := by
  induction xs with
  | nil => rfl
  | cons x xs ih =>
    rw [flatMap_cons, length_append, ih, x.2, length_cons]
    ring

lemma take_drop_flatMap_val {xs : List (FixedBytes n)} {i : Nat} {x : FixedBytes n}
    (h : xs[i]? = some x) (rest : ByteString) :
    ((xs.flatMap Subtype.val ++ rest).drop (n * i)).take n = x.1 := by
  induction xs generalizing i with
  | nil => cases h
  | cons y xs ih =>
    cases i with
    | zero =>
      obtain rfl := Option.some.inj h
      rw [Nat.mul_zero, drop_zero, flatMap_cons, append_assoc, take_left' y.2]
    | succ i =>
      rw [Nat.mul_succ, Nat.add_comm, ← drop_drop, flatMap_cons, append_assoc, drop_left' y.2]
      exact ih h

end

end Codecs
