import Mathlib.Data.List.Perm.Basic

/-!
# Lists of maximal elements

Under a preorder `R`, a list *covers* an element if it has an element above it. `insertMaximal`
inserts an element into such a list and removes what it covers: it looks at one element after the
other, and stops at the first that covers the new one already. What was covered stays covered
(`exists_mem_insertMaximal`), and no element of the list comes to lie below another
(`incomparable_insertMaximal`).
-/

universe u

variable {α : Type u} {R : α → α → Prop} [DecidableRel R] {x y : α}

def Incomparable (R : α → α → Prop) (l : List α) : Prop :=
  l.Pairwise fun a b => ¬ R a b ∧ ¬ R b a

def insertMaximal (R : α → α → Prop) [DecidableRel R] (x : α) : List α → List α → List α
  | new, [] => x :: new
  | new, y :: old =>
    if R x y then new ++ y :: old
    else if R y x then insertMaximal R x new old
    else insertMaximal R x (y :: new) old

theorem exists_mem_insertMaximal [IsTrans α R] {new old : List α}
    (h : R y x ∨ ∃ z ∈ new ++ old, R y z) : ∃ z ∈ insertMaximal R x new old, R y z := by
  induction old generalizing new with
  | nil =>
    obtain hx | ⟨z, hz, hyz⟩ := h
    · exact ⟨x, List.mem_cons_self, hx⟩
    · rw [List.append_nil] at hz
      exact ⟨z, List.mem_cons_of_mem x hz, hyz⟩
  | cons a old ih =>
    rw [insertMaximal]
    split
    · next hxa =>
      obtain hx | hcovered := h
      · exact ⟨a, List.mem_append_right _ List.mem_cons_self, IsTrans.trans _ _ _ hx hxa⟩
      · exact hcovered
    · split
      · -- what the removed element covered is covered by the new one
        next hax =>
        refine ih ?_
        obtain hx | ⟨z, hz, hyz⟩ := h
        · exact .inl hx
        · obtain hz | rfl | hz := List.mem_append.mp hz |>.imp_right List.mem_cons.mp
          · exact .inr ⟨z, List.mem_append_left _ hz, hyz⟩
          · exact .inl (IsTrans.trans _ _ _ hyz hax)
          · exact .inr ⟨z, List.mem_append_right _ hz, hyz⟩
      · refine ih (h.imp_right fun ⟨z, hz, hyz⟩ => ⟨z, ?_, hyz⟩)
        exact List.perm_middle.mem_iff.mp hz

theorem incomparable_insertMaximal {new old : List α} (h : Incomparable R (new ++ old))
    (hnew : ∀ a ∈ new, ¬ R x a ∧ ¬ R a x) : Incomparable R (insertMaximal R x new old) := by
  induction old generalizing new with
  | nil =>
    rw [List.append_nil] at h
    exact List.pairwise_cons.mpr ⟨hnew, h⟩
  | cons a old ih =>
    rw [insertMaximal]
    split
    · exact h
    · next hxa =>
      split
      · exact ih (h.sublist (List.Sublist.append_left (List.sublist_cons_self a old) new)) hnew
      · next hax =>
        refine ih ?_ (List.forall_mem_cons.mpr ⟨⟨hxa, hax⟩, hnew⟩)
        exact (List.perm_middle.pairwise_iff fun hab => hab.symm).mp h

theorem insertMaximal_subset {new old : List α} (h : y ∈ insertMaximal R x new old) :
    y = x ∨ y ∈ new ++ old := by
  induction old generalizing new with
  | nil =>
    rw [List.append_nil]
    exact List.mem_cons.mp h
  | cons a old ih =>
    rw [insertMaximal] at h
    split at h
    · exact .inr h
    · split at h
      · refine (ih h).imp_right fun hmem => ?_
        exact (List.Sublist.append_left (List.sublist_cons_self a old) new).subset hmem
      · exact (ih h).imp_right List.perm_middle.mem_iff.mpr
