import Mathlib.Data.List.Basic

/-!
# Histories of requests and answers

A history is the list of what has happened, the latest first. `Unanswered asks answers log` says
that some entry that asks has no entry that answers after it. Proofs follow the history as it
grows, by `unanswered_cons`.
-/

universe u

variable {A : Type u} {asks asks' answers : A → Prop} {x : A} {log : List A}

def Unanswered (asks answers : A → Prop) (log : List A) : Prop :=
  ∃ since x before, log = since ++ x :: before ∧ asks x ∧ ∀ y ∈ since, ¬ answers y

@[simp]
theorem not_unanswered_nil : ¬ Unanswered asks answers [] := by
  rintro ⟨since, x, before, h, -, -⟩
  simp at h

theorem unanswered_cons : Unanswered asks answers (x :: log) ↔
      asks x ∨ ¬ answers x ∧ Unanswered asks answers log := by
  constructor
  · rintro ⟨since, y, before, h, hasks, hsince⟩
    rcases List.cons_eq_append_iff.mp h with ⟨-, h⟩ | ⟨since', rfl, rfl⟩
    · obtain ⟨rfl, -⟩ := List.cons.inj h
      exact .inl hasks
    · rw [List.forall_mem_cons] at hsince
      exact .inr ⟨hsince.1, since', y, before, rfl, hasks, hsince.2⟩
  · rintro (hasks | ⟨hx, since, y, before, rfl, hasks, hsince⟩)
    · exact ⟨[], x, log, rfl, hasks, fun y hy => nomatch hy⟩
    · exact ⟨x :: since, y, before, rfl, hasks, List.forall_mem_cons.mpr ⟨hx, hsince⟩⟩

theorem forall_entry_cons {P : A → List A → Prop} :
    (∀ after y before, x :: log = after ++ y :: before → P y before) ↔
      P x log ∧ ∀ after y before, log = after ++ y :: before → P y before := by
  constructor
  · intro h
    exact ⟨h [] x log rfl, fun after y before hlog => h (x :: after) y before (by rw [hlog]; rfl)⟩
  · rintro ⟨hx, h⟩ after y before hlog
    rcases List.cons_eq_append_iff.mp hlog with ⟨-, hy⟩ | ⟨after', rfl, rfl⟩
    · obtain ⟨rfl, rfl⟩ := List.cons.inj hy
      exact hx
    · exact h after' y before rfl
