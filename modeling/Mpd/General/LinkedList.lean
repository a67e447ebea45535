import Mathlib.Data.List.Nodup

/-!
# Linked lists in memory

The cells of a list are in memory, each with a link to the next one. `LinkedFrom next a l` says that
the links lead from `a` through the cells of `l`, in their order, and end there.

Memory is changed one link at a time. A list does not notice the links of other cells
(`LinkedFrom.update`); it grows at its front and at its end (`LinkedFrom.push`,
`LinkedFrom.append`), and cells are put in or taken out behind any of them (`LinkedFrom.splice`).
-/

universe u

variable {α : Type u} {next : α → Option α} {a b : Option α} {c d : α} {l : List α}

def LinkedFrom (next : α → Option α) : Option α → List α → Prop
  | a, [] => a = none
  | a, c :: l => a = some c ∧ LinkedFrom next (next c) l

namespace LinkedFrom

open List

theorem eq_head? (h : LinkedFrom next a l) : a = l.head? := by
  cases l with
  | nil => exact h
  | cons c l => exact h.1

theorem next_eq {k : ℕ} (h : LinkedFrom next a l) (hk : l[k]? = some c) : next c = l[k + 1]? := by
  induction l generalizing a k with
  | nil => cases hk
  | cons d l ih =>
    cases k with
    | zero =>
      rw [getElem?_cons_zero, Option.some.injEq] at hk
      rw [getElem?_cons_succ, ← head?_eq_getElem?, ← hk, h.2.eq_head?]
    | succ k =>
      exact ih h.2 hk

theorem of_append {m : List α} (h : LinkedFrom next a (l ++ m)) : LinkedFrom next m.head? m := by
  induction l generalizing a with
  | nil => exact h.eq_head? ▸ h
  | cons c l ih => exact ih h.2

section Update

variable [DecidableEq α]

theorem update (h : LinkedFrom next a l) (hc : c ∉ l) :
    LinkedFrom (Function.update next c b) a l := by
  induction l generalizing a with
  | nil => exact h
  | cons d l ih =>
    rw [mem_cons, not_or] at hc
    refine ⟨h.1, ?_⟩
    rw [Function.update_of_ne (Ne.symm hc.1)]
    exact ih h.2 hc.2

theorem push (h : LinkedFrom next a l) (hc : c ∉ l) :
    LinkedFrom (Function.update next c a) (some c) (c :: l) := by
  refine ⟨rfl, ?_⟩
  rw [Function.update_self]
  exact h.update hc

/-- What comes behind a cell is replaced. -/
theorem splice {m m' : List α} (h : LinkedFrom next a (l ++ m)) (h' : LinkedFrom next b m')
    (hnodup : (l ++ m').Nodup) (hlast : l.getLast? = some d) :
    LinkedFrom (Function.update next d b) a (l ++ m') := by
  induction l generalizing a with
  | nil => cases hlast
  | cons e l ih =>
    rw [cons_append, nodup_cons] at hnodup
    refine ⟨h.1, ?_⟩
    cases l with
    | nil =>
      obtain rfl : e = d := Option.some.inj hlast
      rw [Function.update_self]
      exact h'.update hnodup.1
    | cons f l =>
      have hne : e ≠ d := fun heq =>
        hnodup.1 (mem_append_left _ (heq ▸ mem_of_getLast? hlast))
      rw [Function.update_of_ne hne]
      exact ih h.2 hnodup.2 hlast

theorem append {m : List α} (h : LinkedFrom next a l) (h' : LinkedFrom next b m)
    (hnodup : (l ++ m).Nodup) (hlast : l.getLast? = some d) :
    LinkedFrom (Function.update next d b) a (l ++ m) :=
  splice (m := []) (by rwa [append_nil]) h' hnodup hlast

end Update

end LinkedFrom
