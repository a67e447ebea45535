import Mpd.General.Outcome

/-!
# Runs of a system whose operations can fail

A system is a type of operations with their effect `run` on a state. `Reaches run allowed s t`
says that `t` is reached from `s` by operations that are allowed where they are taken, and that
all return. What an allowed operation preserves holds in every state reached
(`Reaches.invariant`); a concrete run is checked by execution (`Reaches.of_execute`).

Where the operations of a run are given, `Follows` says that each of them is allowed where it is
taken, and `Along` that each of them returns and that something holds before and after. `Keeps` is
the same where some failures are allowed. `along_iff` and `keeps_iff` say for which runs this is so,
from what the good operations preserve and the others do not.
-/

universe u v w

variable {ε : Type u} {S : Type v} {A : Type w} {run : A → S → Except ε S}
  {allowed allowed' : A → S → Prop} {s t : S}

inductive Reaches (run : A → S → Except ε S) (allowed : A → S → Prop) (s : S) : S → Prop
  | refl : Reaches run allowed s s
  | step {t t' : S} {a : A} : Reaches run allowed s t → allowed a t → run a t = .ok t' →
      Reaches run allowed s t'

namespace Reaches

/-- **Run rule.** What holds at the start and is preserved by every allowed operation that
returns holds in every state reached. -/
theorem invariant {I : S → Prop} (h : Reaches run allowed s t) (h0 : I s)
    (hstep : ∀ a t, allowed a t → I t → (run a t).Yields I) : I t := by
  induction h with
  | refl => exact h0
  | step _ ha hrun ih => exact hstep _ _ ha ih _ hrun

theorem mono (h : Reaches run allowed s t) (hle : ∀ a t, allowed a t → allowed' a t) :
    Reaches run allowed' s t := by
  induction h with
  | refl => exact .refl
  | step _ ha hrun ih => exact .step ih (hle _ _ ha) hrun

end Reaches

/-! ### Executing a list of operations -/

def execute (run : A → S → Except ε S) (allowed : A → S → Prop)
    [∀ a s, Decidable (allowed a s)] : List A → S → Option S
  | [], s => some s
  | a :: l, s => if allowed a s then (run a s).toOption.bind (execute run allowed l) else none

theorem Reaches.of_execute [∀ a s, Decidable (allowed a s)] {l : List A} {s₀ : S}
    (h₀ : Reaches run allowed s₀ s) (h : execute run allowed l s = some t) :
    Reaches run allowed s₀ t := by
  induction l generalizing s with
  | nil =>
    rw [execute, Option.some.injEq] at h
    exact h ▸ h₀
  | cons a l ih =>
    rw [execute] at h
    split at h
    · next ha =>
      obtain ⟨s', hs', ht⟩ := Option.bind_eq_some_iff.mp h
      refine ih (h₀.step ha ?_) ht
      cases hrun : run a s with
      | error e => rw [hrun] at hs'; cases hs'
      | ok b => rw [hrun] at hs'; cases hs'; rfl
    · cases h

theorem exists_reaches (run : A → S → Except ε S) (allowed : A → S → Prop)
    [∀ a s, Decidable (allowed a s)] (s : S) (l : List A) {P : S → Prop}
    (h : ∃ t ∈ execute run allowed l s, P t) : ∃ t, Reaches run allowed s t ∧ P t := by
  obtain ⟨t, ht, hP⟩ := h
  exact ⟨t, .of_execute .refl ht, hP⟩

/-! ### A given list of operations -/

def Follows (run : A → S → Except ε S) (allowed : A → S → Prop) : List A → S → Prop
  | [], _ => True
  | a :: l, s => allowed a s ∧ (run a s).Yields (Follows run allowed l)

instance Follows.decidable [∀ a s, Decidable (allowed a s)] :
    ∀ (l : List A) (s : S), Decidable (Follows run allowed l s)
  | [], _ => inferInstanceAs (Decidable True)
  | _ :: l, _ =>
    let _ : DecidablePred (Follows run allowed l) := Follows.decidable l
    inferInstanceAs (Decidable (_ ∧ _))

theorem Follows.of_invariant {I : S → Prop} {l : List A} (h : Follows run allowed l s) (h0 : I s)
    (hstep : ∀ a t, I t → allowed a t → (run a t).Yields I)
    (hle : ∀ a t, I t → allowed a t → allowed' a t) : Follows run allowed' l s := by
  induction l generalizing s with
  | nil => trivial
  | cons a l ih =>
    exact ⟨hle a s h0 h.1, fun t ht => ih (h.2 t ht) (hstep a s h0 h.1 t ht)⟩

theorem Follows.mono {l : List A} (h : Follows run allowed l s)
    (hle : ∀ a t, allowed a t → allowed' a t) : Follows run allowed' l s :=
  h.of_invariant trivial (fun _ _ _ _ => Except.yields_true) fun a t _ => hle a t

def Along (run : A → S → Except ε S) (P : S → Prop) : List A → S → Prop
  | [], s => P s
  | a :: l, s => P s ∧ (run a s).Succeeds (Along run P l)

theorem Along.start {P : S → Prop} {l : List A} (h : Along run P l s) : P s := by
  cases l with
  | nil => exact h
  | cons a l => exact h.1

/-- **Exact run rule.** Good operations preserve an invariant, and other operations end what holds
under the invariant. Then it holds along a run if and only if its operations are good. -/
theorem along_iff {I P : S → Prop} {good : A → Prop} (hI : ∀ t, I t → P t)
    (hgood : ∀ a t, allowed a t → I t → good a → (run a t).Succeeds I)
    (hbad : ∀ a t, allowed a t → I t → ¬ good a → ¬ (run a t).Succeeds P)
    {l : List A} (h0 : I s) (hl : Follows run allowed l s) :
    Along run P l s ↔ ∀ a ∈ l, good a := by
  induction l generalizing s with
  | nil => exact ⟨(fun _ _ ha => nomatch ha), fun _ => hI s h0⟩
  | cons a l ih =>
    rw [List.forall_mem_cons]
    constructor
    · rintro ⟨-, halong⟩
      have ha : good a := by
        by_contra ha
        exact hbad a s hl.1 h0 ha (halong.mono fun t ht => ht.start)
      obtain ⟨t, ht, halong⟩ := halong
      obtain ⟨t', ht', hIt⟩ := hgood a s hl.1 h0 ha
      obtain rfl := Except.ok.inj (ht.symm.trans ht')
      exact ⟨ha, (ih hIt (hl.2 t ht)).mp halong⟩
    · rintro ⟨ha, hrest⟩
      obtain ⟨t, ht, hIt⟩ := hgood a s hl.1 h0 ha
      exact ⟨hI s h0, t, ht, (ih hIt (hl.2 t ht)).mpr hrest⟩

def Keeps (run : A → S → Except ε S) (F : ε → Prop) (P : S → Prop) : List A → S → Prop
  | [], s => P s
  | a :: l, s => P s ∧ (run a s).Within F (Keeps run F P l)

theorem Keeps.start {F : ε → Prop} {P : S → Prop} {l : List A} (h : Keeps run F P l s) : P s := by
  cases l with
  | nil => exact h
  | cons a l => exact h.1

theorem Keeps.exists_of_execute {F : ε → Prop} {P : S → Prop} {Q : S → Bool} {l : List A}
    (h : Keeps run F P l s) (hQ : (execute run (fun _ _ => True) l s).any Q = true) :
    ∃ t, P t ∧ Q t = true := by
  induction l generalizing s with
  | nil => exact ⟨s, h, hQ⟩
  | cons a l ih =>
    rw [execute, if_pos trivial] at hQ
    cases hrun : run a s with
    | error e =>
      rw [hrun] at hQ
      cases hQ
    | ok t =>
      rw [hrun] at hQ
      exact ih (h.2.2 t hrun) hQ

/-- **Run rule.** Good operations preserve an invariant and fail as it is allowed. -/
theorem Follows.keeps {F : ε → Prop} {I P : S → Prop} {l : List A} (h : Follows run allowed l s)
    (hI : ∀ t, I t → P t) (hgood : ∀ a t, I t → allowed a t → (run a t).Within F I) (h0 : I s) :
    Keeps run F P l s := by
  induction l generalizing s with
  | nil => exact hI s h0
  | cons a l ih =>
    have hwithin := hgood a s h0 h.1
    exact ⟨hI s h0, hwithin.1, fun t ht => ih (h.2 t ht) (hwithin.2 t ht)⟩

/-- **Exact run rule**, where an operation is good or not in the state where it is taken. -/
theorem keeps_iff {F : ε → Prop} {I P : S → Prop} {good : A → S → Prop} (hI : ∀ t, I t → P t)
    (hgood : ∀ a t, I t → good a t → (run a t).Within F I)
    (hbad : ∀ a t, I t → ¬ good a t → ¬ (run a t).Within F P) {l : List A} (h0 : I s) :
    Keeps run F P l s ↔ Follows run good l s := by
  refine ⟨fun hkeeps => ?_, fun hfollows => hfollows.keeps hI hgood h0⟩
  induction l generalizing s with
  | nil => trivial
  | cons a l ih =>
    have ha : good a s := by
      by_contra ha
      exact hbad a s h0 ha (hkeeps.2.mono fun t ht => ht.start)
    exact ⟨ha, fun t ht => ih ((hgood a s h0 ha).2 t ht) (hkeeps.2.2 t ht)⟩
