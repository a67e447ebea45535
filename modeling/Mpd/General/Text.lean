import Mathlib.Data.List.DropRight

/-!
# Text

A text is a list of characters, one for each byte. A C string is the text before its terminating
NUL.

* `cut` divides a text at its newlines into complete lines and an unfinished rest. Cutting a text
  that arrives in pieces is cutting each piece behind the rest of the one before (`cut_append`).
* `isSpace`, `chug` and `chomp` are the white space functions for ASCII text.
-/

abbrev Text := List Char

namespace Text

open List

/-! ### White space -/

def isSpace (c : Char) : Bool :=
  c = ' ' || c = '\t' || c = '\n' || c = '\x0c' || c = '\r'

def chug (s : Text) : Text :=
  s.dropWhile isSpace

def chomp (s : Text) : Text :=
  s.rdropWhile isSpace

def beforeNul (s : Text) : Text :=
  s.takeWhile fun c => c ≠ '\x00'

theorem beforeNul_eq_self {s : Text} (h : '\x00' ∉ s) : beforeNul s = s := by
  induction s with
  | nil => rfl
  | cons c s ih =>
    simp only [mem_cons, not_or] at h
    rw [beforeNul, takeWhile_cons_of_pos (by simpa using Ne.symm h.1)]
    exact congrArg (c :: ·) (ih h.2)

/-! ### Lines -/

def prepend (c : Char) : List Text × Text → List Text × Text
  | ([], rest) => ([], c :: rest)
  | (line :: lines, rest) => ((c :: line) :: lines, rest)

def cut : Text → List Text × Text
  | [] => ([], [])
  | c :: s => if c = '\n' then ([] :: (cut s).1, (cut s).2) else prepend c (cut s)

variable {s t line : Text}

theorem cut_of_notMem (h : '\n' ∉ s) : cut s = ([], s) := by
  induction s with
  | nil => rfl
  | cons c s ih =>
    simp only [mem_cons, not_or] at h
    rw [cut, if_neg (Ne.symm h.1), ih h.2, prepend]

theorem cut_line (h : '\n' ∉ line) : cut (line ++ '\n' :: s) = (line :: (cut s).1, (cut s).2) := by
  induction line with
  | nil => simp [cut]
  | cons c line ih =>
    simp only [mem_cons, not_or] at h
    rw [cons_append, cut, if_neg (Ne.symm h.1), ih h.2, prepend]

theorem unfinished_or_line (s : Text) :
    '\n' ∉ s ∨ ∃ line t, '\n' ∉ line ∧ s = line ++ '\n' :: t := by
  by_cases h : '\n' ∈ s
  · obtain ⟨line, t, rfl, hline⟩ := eq_append_cons_of_mem h
    exact .inr ⟨line, t, hline, rfl⟩
  · exact .inl h

theorem newline_notMem_rest (s : Text) : '\n' ∉ (cut s).2 := by
  induction h : s.length using Nat.strong_induction_on generalizing s with
  | _ n ih =>
    obtain hs | ⟨line, t, hline, rfl⟩ := unfinished_or_line s
    · rwa [cut_of_notMem hs]
    · rw [cut_line hline]
      exact ih _ (by simp [← h]; omega) t rfl

theorem mem_of_mem_line {c : Char} (hline : line ∈ (cut s).1) (hc : c ∈ line) : c ∈ s := by
  induction h : s.length using Nat.strong_induction_on generalizing s with
  | _ n ih =>
    obtain hs | ⟨first, t, hfirst, rfl⟩ := unfinished_or_line s
    · rw [cut_of_notMem hs] at hline
      exact absurd hline not_mem_nil
    · rw [cut_line hfirst, mem_cons] at hline
      obtain rfl | hmem := hline
      · exact mem_append_left _ hc
      · have hrec := ih _ (by simp [← h]; omega) hmem rfl
        exact mem_append_right _ (mem_cons_of_mem _ hrec)

/-- **A text that arrives in two pieces.** -/
theorem cut_append (s t : Text) :
    cut (s ++ t) = ((cut s).1 ++ (cut ((cut s).2 ++ t)).1, (cut ((cut s).2 ++ t)).2) := by
  induction h : s.length using Nat.strong_induction_on generalizing s with
  | _ n ih =>
    obtain hs | ⟨line, u, hline, rfl⟩ := unfinished_or_line s
    · rw [cut_of_notMem hs, nil_append]
    · rw [append_assoc, cons_append, cut_line hline, cut_line hline,
        ih _ (by simp [← h]; omega) u rfl, cons_append]

theorem rest_prefix (s t : Text) :
    (∃ line ∈ (cut (s ++ t)).1, (cut s).2 <+: line) ∨ (cut s).2 <+: (cut (s ++ t)).2 := by
  rw [cut_append]
  have hrest := newline_notMem_rest s
  generalize (cut s).2 = rest at hrest ⊢
  obtain ht | ⟨line, u, hline, rfl⟩ := unfinished_or_line t
  · right
    rw [cut_of_notMem (s := rest ++ t) (by simp [hrest, ht])]
    exact prefix_append _ _
  · left
    refine ⟨rest ++ line, ?_, prefix_append _ _⟩
    rw [← append_assoc, cut_line (by simp [hrest, hline])]
    simp

end Text
