import Mathlib.Data.List.Basic

/-!
# Sequences of array writes

`writeAll a l` performs the writes of the list `l` of `(index, value)` pairs one after the
other. Its value at an index is determined as soon as all writes to the index agree; the order
of the writes then does not matter.
-/

open Function (update)

universe u v

variable {ι : Type u} {α : Type v} [DecidableEq ι]

def writeAll (a : ι → α) (l : List (ι × α)) : ι → α :=
  l.foldl (fun a m => update a m.1 m.2) a

variable {a : ι → α} {l : List (ι × α)} {i : ι} {x : α}

@[simp]
theorem writeAll_cons (m : ι × α) : writeAll a (m :: l) = writeAll (update a m.1 m.2) l :=
  rfl

theorem writeAll_of_forall_ne (h : ∀ m ∈ l, m.1 ≠ i) : writeAll a l i = a i := by
  induction l generalizing a with
  | nil => rfl
  | cons m l ih =>
    rw [writeAll_cons, ih fun m' hm' => h m' (List.mem_cons_of_mem m hm'),
      Function.update_of_ne (h m List.mem_cons_self).symm]

theorem writeAll_of_mem (h : ∀ m ∈ l, m.1 = i → m.2 = x) (hex : ∃ m ∈ l, m.1 = i) :
    writeAll a l i = x := by
  induction l generalizing a with
  | nil => simp at hex
  | cons m l ih =>
    have hl : ∀ m' ∈ l, m'.1 = i → m'.2 = x := fun m' hm' => h m' (List.mem_cons_of_mem m hm')
    rw [writeAll_cons]
    by_cases hlater : ∃ m' ∈ l, m'.1 = i
    · exact ih hl hlater
    · -- no later write: the index holds what the first write left there
      push Not at hlater
      obtain ⟨m', hm', hi⟩ := hex
      obtain rfl : m' = m := by
        rcases List.mem_cons.mp hm' with rfl | hmem
        · rfl
        · exact absurd hi (hlater m' hmem)
      rw [writeAll_of_forall_ne hlater, ← hi, Function.update_self]
      exact h m' List.mem_cons_self hi

section Map

variable {κ : Type*} {k : κ → ι} {y : κ → α} {ms : List κ}

theorem writeAll_map_of_forall_ne (h : ∀ m ∈ ms, k m ≠ i) :
    writeAll a (ms.map fun m => (k m, y m)) i = a i := by
  refine writeAll_of_forall_ne fun w hw => ?_
  obtain ⟨m, hm, rfl⟩ := List.mem_map.mp hw
  exact h m hm

theorem writeAll_map_of_mem {m : κ} (hm : m ∈ ms) (h : ∀ m' ∈ ms, k m' = k m → y m' = y m) :
    writeAll a (ms.map fun m => (k m, y m)) (k m) = y m := by
  refine writeAll_of_mem (fun w hw hk => ?_) ⟨_, List.mem_map_of_mem hm, rfl⟩
  obtain ⟨m', hm', rfl⟩ := List.mem_map.mp hw
  exact h m' hm' hk

end Map
