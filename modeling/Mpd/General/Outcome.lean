import Mathlib.Tactic.Common

/-!
# Outcomes of computations that can fail

A computation in `Except ε` either returns a value or stops with a failure. Two
specifications are used throughout:

* `x.Succeeds P` — **total correctness**: `x` returns a value, and the value satisfies `P`;
* `x.Yields P` — **partial correctness**: whatever value `x` returns satisfies `P`.

Each has one rule for every way a computation is put together (`pure`, `bind`, `ite`), so
that a program is verified by walking along its text, and the two combine
(`Succeeds.and_yields`): safety is proved once, with the invariant it needs, and frame
facts separately, without one. Where some failures are allowed and others are not, `x.Within F P`
takes the part of total correctness.
-/

namespace Except

universe u v

variable {ε : Type u} {α β : Type v} {x : Except ε α} {f : α → Except ε β} {P Q : α → Prop}
  {R : β → Prop}

/-- **Total correctness.** -/
def Succeeds (x : Except ε α) (P : α → Prop) : Prop :=
  ∃ a, x = .ok a ∧ P a

/-- **Partial correctness.** -/
def Yields (x : Except ε α) (P : α → Prop) : Prop :=
  ∀ a, x = .ok a → P a

/-! ### Total correctness -/

@[simp]
theorem succeeds_ok {a : α} : (Except.ok a : Except ε α).Succeeds P ↔ P a :=
  ⟨by rintro ⟨b, hb, h⟩; cases hb; exact h, fun h => ⟨a, rfl, h⟩⟩

@[simp]
theorem succeeds_pure {a : α} : (pure a : Except ε α).Succeeds P ↔ P a :=
  succeeds_ok

theorem Succeeds.ok {a : α} (h : P a) : (Except.ok a : Except ε α).Succeeds P :=
  succeeds_ok.mpr h

@[simp]
theorem not_succeeds_error {e : ε} : ¬ (Except.error e : Except ε α).Succeeds P := by
  rintro ⟨b, hb, -⟩
  cases hb

instance [DecidablePred P] : ∀ x : Except ε α, Decidable (x.Succeeds P)
  | .ok _ => decidable_of_iff _ succeeds_ok.symm
  | .error _ => .isFalse not_succeeds_error

instance decidableEqError [DecidableEq ε] (e : ε) : ∀ x : Except ε α, Decidable (x = .error e)
  | .ok _ => .isFalse fun h => nomatch h
  | .error e' => decidable_of_iff (e' = e) (by rw [Except.error.injEq])

/-- **Sequence.** -/
theorem Succeeds.bind (hx : x.Succeeds P) (hf : ∀ a, P a → (f a).Succeeds R) :
    (x >>= f).Succeeds R := by
  obtain ⟨a, rfl, ha⟩ := hx
  exact hf a ha

theorem Succeeds.fst {x : Except ε (α × β)} (hx : x.Succeeds fun r => P r.1) :
    (Prod.fst <$> x).Succeeds P :=
  hx.bind fun _ hr => .ok hr

/-- Whatever succeeds does so step by step. -/
theorem Succeeds.of_bind (h : (x >>= f).Succeeds R) : x.Succeeds fun a => (f a).Succeeds R := by
  cases x with
  | error e => exact absurd h not_succeeds_error
  | ok a => exact succeeds_ok.mpr h

theorem succeeds_bind : (x >>= f).Succeeds R ↔ x.Succeeds fun a => (f a).Succeeds R :=
  ⟨Succeeds.of_bind, fun h => h.bind fun _ => id⟩

theorem Succeeds.mono (hx : x.Succeeds P) (h : ∀ a, P a → Q a) : x.Succeeds Q := by
  obtain ⟨a, ha, hP⟩ := hx
  exact ⟨a, ha, h a hP⟩

theorem Succeeds.mapError {ε' : Type*} {g : ε → ε'} (hx : x.Succeeds P) :
    (x.mapError g).Succeeds P := by
  obtain ⟨a, rfl, ha⟩ := hx
  exact .ok ha

/-- Safety and frame are put together. -/
theorem Succeeds.and_yields (hx : x.Succeeds P) (hy : x.Yields Q) :
    x.Succeeds fun a => P a ∧ Q a := by
  obtain ⟨a, ha, hP⟩ := hx
  exact ⟨a, ha, hP, hy a ha⟩

/-! ### Partial correctness -/

@[simp]
theorem yields_ok {a : α} : (Except.ok a : Except ε α).Yields P ↔ P a :=
  ⟨fun h => h a rfl, by rintro h b hb; cases hb; exact h⟩

@[simp]
theorem yields_pure {a : α} : (pure a : Except ε α).Yields P ↔ P a :=
  yields_ok

@[simp]
theorem yields_error {e : ε} : (Except.error e : Except ε α).Yields P := by
  intro b hb
  cases hb

theorem Yields.ok {a : α} (h : P a) : (Except.ok a : Except ε α).Yields P :=
  yields_ok.mpr h

theorem Yields.error {e : ε} : (Except.error e : Except ε α).Yields P :=
  yields_error

instance decidableYields [DecidablePred P] : ∀ x : Except ε α, Decidable (x.Yields P)
  | .ok _ => decidable_of_iff _ yields_ok.symm
  | .error _ => .isTrue yields_error

theorem yields_true : x.Yields fun _ => True :=
  fun _ _ => trivial

/-- **Sequence.** -/
theorem Yields.bind (hx : x.Yields P) (hf : ∀ a, P a → (f a).Yields R) : (x >>= f).Yields R := by
  cases x with
  | error e => exact yields_error
  | ok a => exact hf a (hx a rfl)

theorem Yields.fst {x : Except ε (α × β)} (hx : x.Yields fun r => P r.1) :
    (Prod.fst <$> x).Yields P :=
  hx.bind fun _ hr => .ok hr

/-- What comes first does not matter. -/
theorem Yields.after (hf : ∀ a, (f a).Yields R) : (x >>= f).Yields R :=
  yields_true.bind fun a _ => hf a

theorem Yields.mono (hx : x.Yields P) (h : ∀ a, P a → Q a) : x.Yields Q :=
  fun a ha => h a (hx a ha)

theorem Yields.and (hx : x.Yields P) (hy : x.Yields Q) : x.Yields fun a => P a ∧ Q a :=
  fun a ha => ⟨hx a ha, hy a ha⟩

theorem Succeeds.yields (hx : x.Succeeds P) : x.Yields P := by
  obtain ⟨a, rfl, ha⟩ := hx
  exact yields_ok.mpr ha

theorem Yields.mapM {α β : Type v} {f : α → Except ε β} {R : β → Prop} {l : List α}
    (h : ∀ a ∈ l, (f a).Yields R) : (l.mapM f).Yields fun l' => ∀ b ∈ l', R b := by
  induction l with
  | nil =>
    rw [List.mapM_nil, yields_pure]
    exact fun b hb => nomatch hb
  | cons a l ih =>
    rw [List.forall_mem_cons] at h
    rw [List.mapM_cons]
    refine h.1.bind fun b hb => (ih h.2).bind fun l' hl' => ?_
    rw [yields_pure, List.forall_mem_cons]
    exact ⟨hb, hl'⟩

/-! ### Failures that are allowed -/

/-- Failures are of the kind `F`, and whatever is returned satisfies `P`. -/
def Within (x : Except ε α) (F : ε → Prop) (P : α → Prop) : Prop :=
  (∀ e, x = .error e → F e) ∧ x.Yields P

section Within

variable {F : ε → Prop}

@[simp]
theorem within_ok {a : α} : (Except.ok a : Except ε α).Within F P ↔ P a :=
  ⟨fun h => yields_ok.mp h.2, fun h => ⟨fun _ he => (nomatch he), yields_ok.mpr h⟩⟩

@[simp]
theorem within_error {e : ε} : (Except.error e : Except ε α).Within F P ↔ F e :=
  ⟨fun h => h.1 e rfl, fun h => ⟨fun _ he => Except.error.inj he ▸ h, yields_error⟩⟩

theorem Within.ok {a : α} (h : P a) : (Except.ok a : Except ε α).Within F P :=
  within_ok.mpr h

theorem Within.error {e : ε} (h : F e) : (Except.error e : Except ε α).Within F P :=
  within_error.mpr h

/-- **Sequence.** -/
theorem Within.bind (hx : x.Within F P) (hf : ∀ a, P a → (f a).Within F R) :
    (x >>= f).Within F R := by
  cases x with
  | error e => exact within_error.mpr (within_error.mp hx)
  | ok a => exact hf a (within_ok.mp hx)

theorem within_bind_ok {R : β → Prop} {g : α → β} :
    (x >>= fun a => .ok (g a)).Within F R ↔ x.Within F fun a => R (g a) := by
  cases x with
  | error e => exact within_error.trans within_error.symm
  | ok a =>
    rw [within_ok]
    exact within_ok

theorem Within.mono (hx : x.Within F P) (h : ∀ a, P a → Q a) : x.Within F Q :=
  ⟨hx.1, hx.2.mono h⟩

theorem Succeeds.within (hx : x.Succeeds P) : x.Within F P := by
  obtain ⟨a, rfl, ha⟩ := hx
  exact within_ok.mpr ha

theorem Within.map {R : β → Prop} {g : α → β} (hx : x.Within F P) (h : ∀ a, P a → R (g a)) :
    (g <$> x).Within F R := by
  cases x with
  | error e => exact within_error.mpr (within_error.mp hx)
  | ok a => exact within_ok.mpr (h a (within_ok.mp hx))

end Within

/-! ### Computations with a bound -/

/-- `x` runs out of its bound (`e`), or it is `y`. -/
def Below (e : ε) (x y : Except ε α) : Prop :=
  x = .error e ∨ x = y

section Below

variable {e : ε} {y : Except ε α} {g : α → Except ε β}

theorem Below.refl (x : Except ε α) : Below e x x :=
  .inr rfl

theorem Below.trans {z : Except ε α} (h : Below e x y) (h' : Below e y z) : Below e x z := by
  obtain rfl | rfl := h
  · exact .inl rfl
  · exact h'

/-- A bound is passed on. -/
theorem Below.bind (hx : Below e x y) (hf : ∀ a, Below e (f a) (g a)) :
    Below e (x >>= f) (y >>= g) := by
  obtain rfl | rfl := hx
  · exact .inl rfl
  · cases x with
    | error e' => exact .inr rfl
    | ok a => exact hf a

/-- A result within the bound does not depend on it. -/
theorem Below.eq (h : Below e x y) (hne : x ≠ .error e) : y = x :=
  (h.resolve_left hne).symm

end Below

/-- With enough rounds, `x` succeeds. -/
def Eventually (x : Nat → Except ε α) (P : α → Prop) : Prop :=
  ∃ N, ∀ n, N ≤ n → (x n).Succeeds P

/-- Where more rounds do not matter, one result decides. -/
theorem eventually_iff_of_lt {x : Nat → Except ε α} {y : Except ε α} {N : Nat}
    (h : ∀ n, N < n → x n = y) : Eventually x P ↔ y.Succeeds P := by
  constructor
  · rintro ⟨M, hM⟩
    have hlt : N < max M (N + 1) := Nat.le_max_right ..
    exact h _ hlt ▸ hM _ (Nat.le_max_left ..)
  · intro hy
    exact ⟨N + 1, fun n hn => (h n hn).symm ▸ hy⟩

theorem eventually_iff_of_succ {x : Nat → Except ε α} {y : Except ε α}
    (h : ∀ n, x (n + 1) = y) : Eventually x P ↔ y.Succeeds P := by
  refine eventually_iff_of_lt (N := 0) fun n hn => ?_
  obtain ⟨m, rfl⟩ := Nat.exists_eq_add_of_le' hn
  exact h m

theorem not_eventually {x : Nat → Except ε α} {e : ε} (h : ∀ n, x n = .error e) :
    ¬ Eventually x P := by
  rintro ⟨N, hN⟩
  exact not_succeeds_error (h N ▸ hN N (Nat.le_refl N))

/-! ### Branches -/

section Branch

variable {c : Prop} [Decidable c] {y : Except ε α}

/-- **Branch.** -/
theorem Succeeds.ite (hx : c → x.Succeeds P) (hy : ¬ c → y.Succeeds P) :
    (if c then x else y).Succeeds P := by
  split
  · exact hx ‹_›
  · exact hy ‹_›

theorem Succeeds.branch (hx : x.Succeeds P) (hy : y.Succeeds P) : (if c then x else y).Succeeds P :=
  .ite (fun _ => hx) fun _ => hy

/-- **Branch.** -/
theorem Yields.ite (hx : c → x.Yields P) (hy : ¬ c → y.Yields P) :
    (if c then x else y).Yields P := by
  split
  · exact hx ‹_›
  · exact hy ‹_›

theorem Yields.branch (hx : x.Yields P) (hy : y.Yields P) : (if c then x else y).Yields P :=
  .ite (fun _ => hx) fun _ => hy

/-- **Branch.** -/
theorem Within.ite {F : ε → Prop} (hx : c → x.Within F P) (hy : ¬ c → y.Within F P) :
    (if c then x else y).Within F P := by
  split
  · exact hx ‹_›
  · exact hy ‹_›

theorem Within.branch {F : ε → Prop} (hx : x.Within F P) (hy : y.Within F P) :
    (if c then x else y).Within F P :=
  .ite (fun _ => hx) fun _ => hy

theorem Below.ite {e : ε} {x' y' : Except ε α} (hx : Below e x x') (hy : Below e y y') :
    Below e (if c then x else y) (if c then x' else y') := by
  split
  · exact hx
  · exact hy

/-- A guarded step. -/
@[simp]
theorem yields_guard {a : α} {e : ε} :
    (if c then .ok a else .error e : Except ε α).Yields P ↔ (c → P a) := by
  split
  · next hc => exact yields_ok.trans ⟨fun h _ => h, fun h => h hc⟩
  · next hc => exact ⟨fun _ h => absurd h hc, fun _ => yields_error⟩

end Branch

@[simp]
theorem ok_bind {a : α} : ((Except.ok a : Except ε α) >>= f) = f a :=
  rfl

@[simp]
theorem error_bind {e : ε} : ((Except.error e : Except ε α) >>= f) = .error e :=
  rfl

end Except
