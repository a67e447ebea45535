import Mathlib.Order.Nat

/-!
# Counting loops

`forUp lo hi f s` runs `f i` on the state for `i = lo, lo + 1, …, hi - 1`: the loop
`for (i = lo; i < hi; i++)` of an imperative program, as a structural recursion on the number
of rounds left. It is reasoned about through the two unfolding equations, the invariant rule
`forUp_induction` and the projection rule `forUp_map`; no client unfolds it.
-/

universe u v

variable {S : Type u} {T : Type v}

def forUpFrom (f : ℕ → S → S) : ℕ → ℕ → S → S
  | 0, _, s => s
  | n + 1, i, s => forUpFrom f n (i + 1) (f i s)

def forUp (lo hi : ℕ) (f : ℕ → S → S) (s : S) : S :=
  forUpFrom f (hi - lo) lo s

variable {lo hi : ℕ} {f : ℕ → S → S} {s : S}

theorem forUp_of_le (h : hi ≤ lo) : forUp lo hi f s = s := by
  rw [forUp, Nat.sub_eq_zero_of_le h, forUpFrom]

theorem forUp_of_lt (h : lo < hi) : forUp lo hi f s = forUp (lo + 1) hi f (f lo s) := by
  obtain ⟨n, hn⟩ : ∃ n, hi - lo = n + 1 := ⟨hi - lo - 1, by omega⟩
  have hn' : hi - (lo + 1) = n := by omega
  rw [forUp, forUp, hn, hn', forUpFrom]

/-- **Invariant rule.** What holds before the loop, and is carried from each round to the
next, holds after it. -/
theorem forUp_induction {motive : ℕ → S → Prop} (hle : lo ≤ hi) (h0 : motive lo s)
    (hstep : ∀ i s, lo ≤ i → i < hi → motive i s → motive (i + 1) (f i s)) :
    motive hi (forUp lo hi f s) := by
  obtain ⟨n, hn⟩ : ∃ n, hi - lo = n := ⟨_, rfl⟩
  induction n generalizing lo s with
  | zero =>
    obtain rfl : lo = hi := by omega
    rwa [forUp_of_le le_rfl]
  | succ n ih =>
    have hlt : lo < hi := by omega
    rw [forUp_of_lt hlt]
    refine ih hlt (hstep lo s le_rfl hlt h0) (fun i s hi₁ hi₂ => hstep i s ?_ hi₂) (by omega)
    omega

/-- **Projection rule.** A view of the state that each round respects is respected by the
loop. -/
theorem forUp_map (g : S → T) {f' : ℕ → T → T}
    (h : ∀ i s, lo ≤ i → i < hi → g (f i s) = f' i (g s)) :
    g (forUp lo hi f s) = forUp lo hi f' (g s) := by
  obtain ⟨n, hn⟩ : ∃ n, hi - lo = n := ⟨_, rfl⟩
  induction n generalizing lo s with
  | zero => rw [forUp_of_le (by omega), forUp_of_le (by omega)]
  | succ n ih =>
    have hlt : lo < hi := by omega
    rw [forUp_of_lt hlt, forUp_of_lt hlt, ih (fun i s h₁ h₂ => h i s (by omega) h₂) (by omega),
      h lo s le_rfl hlt]
