import Mathlib

/-!
# Computations that may fail

What a computation in `Except` that has succeeded says of its parts: of the two parts of a
sequence, and of the rounds of a loop.
-/

namespace ExceptLoops

open List

variable {ε α β σ : Type}

variable {f : α → Option β} {l : List α} {s : σ}

lemma bind_eq_ok {x : Except ε α} {f : α → Except ε β} {b : β} :
    (x >>= f) = .ok b ↔ ∃ a, x = .ok a ∧ f a = .ok b := by
  cases x with
  | error e => simp [Bind.bind, Except.bind]
  | ok a => simp [Bind.bind, Except.bind]

lemma rest_eq_ok {x : Except ε α} {y : Except ε β} {b : β} (h : (x >>= fun _ => y) = .ok b) :
    y = .ok b := by
  obtain ⟨_, -, hy⟩ := bind_eq_ok.1 h
  exact hy

lemma toOption_eq_some {x : Except ε α} {a : α} : x.toOption = some a ↔ x = .ok a := by
  cases x <;> simp [Except.toOption]

lemma ite_error_eq_ok {e : ε} {c : Prop} [Decidable c] {x : Except ε α} {a : α} :
    (if c then .error e else x) = .ok a ↔ ¬ c ∧ x = .ok a := by
  split <;> simp [*]

lemma forM_eq_ok {f : α → Except ε Unit} : l.forM f = .ok () ↔ ∀ a ∈ l, f a = .ok () := by
  induction l with
  | nil => exact ⟨fun _ _ h => absurd h not_mem_nil, fun _ => rfl⟩
  | cons a l ih =>
    rw [forall_mem_cons, ← ih]
    exact bind_eq_ok.trans ⟨fun ⟨_, h⟩ => h, fun h => ⟨(), h⟩⟩

lemma mapM_eq_ok {f : α → Except ε β} {results : List β} (h : l.mapM f = .ok results) :
    l.map f = results.map .ok := by
  induction l generalizing results with
  | nil =>
    cases h
    rfl
  | cons a l ih =>
    rw [mapM_cons] at h
    obtain ⟨b, hb, h⟩ := bind_eq_ok.1 h
    obtain ⟨bs, hbs, h⟩ := bind_eq_ok.1 h
    cases h
    rw [map_cons, map_cons, hb, ih hbs]

lemma mapM_eq_some_map {g : α → β} (h : ∀ a ∈ l, f a = some (g a)) : l.mapM f = some (l.map g) := by
  induction l with
  | nil => rfl
  | cons a l ih =>
    obtain ⟨ha, hl⟩ := forall_mem_cons.1 h
    rw [mapM_cons, ha, ih hl]
    rfl

lemma mapM_eq_none {a : α} (ha : a ∈ l) (h : f a = none) : l.mapM f = none := by
  induction l with
  | nil => exact absurd ha not_mem_nil
  | cons b l ih =>
    rw [mapM_cons]
    rcases mem_cons.1 ha with rfl | ha
    · rw [h]
      rfl
    · rw [ih ha]
      cases f b <;> rfl

lemma exists_mapM_eq_some (h : ∀ a ∈ l, f a ≠ none) :
    ∃ results, l.mapM f = some results ∧ ∀ b, b ∈ results ↔ ∃ a ∈ l, f a = some b := by
  induction l with
  | nil => exact ⟨[], rfl, by simp⟩
  | cons a l ih =>
    obtain ⟨ha, hl⟩ := forall_mem_cons.1 h
    obtain ⟨b, hb⟩ := Option.ne_none_iff_exists'.1 ha
    obtain ⟨results, hresults, hmem⟩ := ih hl
    refine ⟨b :: results, ?_, fun c => ?_⟩
    · rw [mapM_cons, hb, hresults]
      rfl
    · simp [hmem, hb, eq_comm]

lemma map_eq_of_mapM {γ : Type} {g : β → γ} {k : α → γ} {results : List β}
    (h : l.mapM f = some results) (hf : ∀ a ∈ l, ∀ b, f a = some b → g b = k a) :
    results.map g = l.map k := by
  induction l generalizing results with
  | nil =>
    cases h
    rfl
  | cons a l ih =>
    obtain ⟨ha, hl⟩ := forall_mem_cons.1 hf
    rw [mapM_cons] at h
    obtain ⟨b, hb, h⟩ := Option.bind_eq_some_iff.1 h
    obtain ⟨bs, hbs, h⟩ := Option.bind_eq_some_iff.1 h
    cases h
    rw [map_cons, map_cons, ha b hb, ih hbs hl]

lemma foldlM_invariant {m : Type → Type} [Monad m] [LawfulMonad m] {f : σ → α → m σ} (inv : σ → Prop)
    (hstep : ∀ a ∈ l, ∀ s, inv s → ∃ s', f s a = pure s' ∧ inv s') (hs : inv s) :
    ∃ s', l.foldlM f s = pure s' ∧ inv s' := by
  induction l generalizing s with
  | nil => exact ⟨s, rfl, hs⟩
  | cons a l ih =>
    obtain ⟨s₁, hs₁, hinv⟩ := hstep a mem_cons_self s hs
    obtain ⟨s', hs', hinv'⟩ := ih (fun b hb => hstep b (mem_cons_of_mem a hb)) hinv
    refine ⟨s', ?_, hinv'⟩
    rw [foldlM_cons, hs₁, pure_bind, hs']

lemma foldlM_zipIdx_invariant {f : σ → α × Nat → Except ε σ} (inv : Nat → σ → Prop)
    (hstep : ∀ n a s s', l[n]? = some a → inv n s → f s (a, n) = .ok s' → inv (n + 1) s') {s' : σ}
    (hinit : inv 0 s) (h : l.zipIdx.foldlM f s = .ok s') : inv l.length s' := by
  induction l generalizing f inv s with
  | nil =>
    cases h
    exact hinit
  | cons a l ih =>
    rw [zipIdx_cons, foldlM_cons] at h
    obtain ⟨s₁, hs₁, h⟩ := bind_eq_ok.1 h
    rw [zipIdx_succ, foldlM_map] at h
    refine ih (fun n => inv (n + 1)) ?_ (hstep 0 a s s₁ rfl hinit hs₁) h
    exact fun n => hstep (n + 1)

end ExceptLoops
