import Mathlib.Data.List.Nodup
import Mathlib.Data.List.Perm.Basic

/-!
# Buckets

A hash table keeps its elements in buckets, and a function tells to which bucket an element
belongs. If every element is in its own bucket only, and there only once, then going through the
buckets visits every element once (`Bucketed.nodup_flatMap`, `Bucketed.mem_flatMap_iff`). Whether
elements share a bucket does not matter.
-/

universe u

variable {α : Type u} {index : α → ℕ} {bucket : ℕ → List α} {a b : α} {n : ℕ}

/-- Every element is in its own bucket only, and there only once. -/
structure Bucketed (index : α → ℕ) (bucket : ℕ → List α) : Prop where
  index_eq : ∀ i, ∀ a ∈ bucket i, index a = i
  nodup : ∀ i, (bucket i).Nodup

namespace Bucketed

open List

theorem nodup_flatMap (h : Bucketed index bucket) (n : ℕ) : ((range n).flatMap bucket).Nodup := by
  rw [List.nodup_flatMap]
  refine ⟨fun i _ => h.nodup i, nodup_range.imp fun {i j} hne => ?_⟩
  intro a hi hj
  exact hne ((h.index_eq i a hi).symm.trans (h.index_eq j a hj))

theorem mem_flatMap_iff (h : Bucketed index bucket) (hn : index a < n) :
    a ∈ (range n).flatMap bucket ↔ a ∈ bucket (index a) := by
  rw [mem_flatMap]
  constructor
  · rintro ⟨i, -, hi⟩
    rwa [h.index_eq i a hi]
  · intro ha
    exact ⟨index a, mem_range.mpr hn, ha⟩

theorem insert (h : Bucketed index bucket) (ha : a ∉ bucket (index a)) {l : List α}
    (hl : l.Perm (a :: bucket (index a))) :
    Bucketed index (Function.update bucket (index a) l) := by
  constructor
  · intro i b hb
    rw [Function.update_apply] at hb
    split at hb
    · next hi =>
      obtain rfl | hb := mem_cons.mp (hl.mem_iff.mp hb)
      · exact hi.symm
      · rw [hi]
        exact h.index_eq _ b hb
    · exact h.index_eq i b hb
  · intro i
    rw [Function.update_apply]
    split
    · exact hl.nodup_iff.mpr (nodup_cons.mpr ⟨ha, h.nodup _⟩)
    · exact h.nodup i

end Bucketed
