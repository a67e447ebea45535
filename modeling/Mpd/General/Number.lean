import Mathlib.Algebra.Ring.Int.Defs
import Mathlib.Algebra.Ring.Nat
import Mpd.General.Text

/-!
# Decimal numbers in texts

`strtol` and `strtoul` of the C library, in base ten, where `long` has 64 bits. Both skip white
space, take a sign and read as many digits as there are; they return the number and the text behind
it, or, where there are no digits, zero and the whole text.

A number that was printed is read back (`strtol_toDigits`, `strtoul_toDigits`).
-/

namespace Text

open List

def longMax : ℕ := 2 ^ 63 - 1

def ulongMax : ℕ := 2 ^ 64 - 1

def isCSpace (ch : Char) : Bool :=
  isSpace ch || ch = '\x0b'

def takeSign : Text → Bool × Text
  | '-' :: s => (true, s)
  | '+' :: s => (false, s)
  | s => (false, s)

def readNumber (s : Text) : Option (Bool × ℕ × Text) :=
  let (negative, t) := takeSign (s.dropWhile isCSpace)
  let digits := t.takeWhile Char.isDigit
  if digits = [] then none
  else some (negative, Nat.ofDigitChars 10 digits 0, t.dropWhile Char.isDigit)

def strtol (s : Text) : ℤ × Text :=
  match readNumber s with
  | none => (0, s)
  | some (negative, n, rest) =>
    (if negative then max (-longMax - 1) (-n) else min longMax n, rest)

def strtoul (s : Text) : ℕ × Text :=
  match readNumber s with
  | none => (0, s)
  | some (negative, n, rest) =>
    (if ulongMax < n then ulongMax else if negative then (2 ^ 64 - n) % 2 ^ 64 else n, rest)

def atoi (s : Text) : ℤ :=
  (strtol s).1.bmod (2 ^ 32)

def intText : ℤ → Text
  | .ofNat n => Nat.toDigits 10 n
  | .negSucc n => '-' :: Nat.toDigits 10 (n + 1)

/-! ### Reading what was printed -/

variable {s rest : Text}

theorem notMem_toDigits {ch : Char} (h : ch.isDigit = false) (n : ℕ) : ch ∉ Nat.toDigits 10 n :=
  fun hmem => by simp [Nat.isDigit_of_mem_toDigits (by decide) (by decide) hmem] at h

theorem takeSign_dropWhile_of_isDigit {ch : Char} (h : ch.isDigit = true) :
    takeSign ((ch :: s).dropWhile isCSpace) = (false, ch :: s) := by
  have hspace : isCSpace ch = false := by
    by_contra hspace
    simp only [isCSpace, isSpace, Bool.not_eq_false, Bool.or_eq_true, decide_eq_true_eq] at hspace
    obtain ((((rfl | rfl) | rfl) | rfl) | rfl) | rfl := hspace <;> cases h
  rw [dropWhile_cons_of_neg (by rw [hspace]; exact Bool.false_ne_true), takeSign.eq_def]
  split
  · next heq => cases heq; cases h
  · next heq => cases heq; cases h
  · rfl

section

variable (n : ℕ) (hrest : ∀ ch ∈ rest.head?, ch.isDigit = false)
include hrest

theorem takeWhile_toDigits_append :
    (Nat.toDigits 10 n ++ rest).takeWhile Char.isDigit = Nat.toDigits 10 n ∧
      (Nat.toDigits 10 n ++ rest).dropWhile Char.isDigit = rest := by
  have hdigits : ∀ ch ∈ Nat.toDigits 10 n, ch.isDigit = true := fun ch =>
    Nat.isDigit_of_mem_toDigits (by decide) (by decide)
  rw [takeWhile_append_of_pos hdigits, dropWhile_append_of_pos hdigits]
  cases rest with
  | nil => exact ⟨append_nil _, rfl⟩
  | cons ch rest =>
    have hch : ¬ ch.isDigit = true := by
      rw [hrest ch rfl]
      exact Bool.false_ne_true
    rw [takeWhile_cons_of_neg hch, dropWhile_cons_of_neg hch, append_nil]
    exact ⟨rfl, rfl⟩

theorem readNumber_toDigits : readNumber (Nat.toDigits 10 n ++ rest) = some (false, n, rest) := by
  obtain ⟨htake, hdrop⟩ := takeWhile_toDigits_append n hrest
  have hsign : takeSign ((Nat.toDigits 10 n ++ rest).dropWhile isCSpace) =
      (false, Nat.toDigits 10 n ++ rest) := by
    obtain ⟨ch, ds, hds⟩ := exists_cons_of_ne_nil (Nat.toDigits_ne_nil)
    rw [hds, cons_append]
    refine takeSign_dropWhile_of_isDigit ?_
    exact Nat.isDigit_of_mem_toDigits (by decide) (by decide) (hds ▸ mem_cons_self)
  simp only [readNumber, hsign, htake, hdrop, Nat.toDigits_ne_nil, if_false]
  rw [Nat.ofDigitChars_toDigits (by decide) (by decide)]

theorem readNumber_minus :
    readNumber ('-' :: (Nat.toDigits 10 n ++ rest)) = some (true, n, rest) := by
  obtain ⟨htake, hdrop⟩ := takeWhile_toDigits_append n hrest
  have hsign : takeSign (('-' :: (Nat.toDigits 10 n ++ rest)).dropWhile isCSpace) =
      (true, Nat.toDigits 10 n ++ rest) := rfl
  simp only [readNumber, hsign, htake, hdrop, Nat.toDigits_ne_nil, if_false]
  rw [Nat.ofDigitChars_toDigits (by decide) (by decide)]

end

theorem strtol_toDigits {n : ℕ} (hn : n ≤ longMax) (hrest : ∀ ch ∈ rest.head?, ch.isDigit = false) :
    strtol (Nat.toDigits 10 n ++ rest) = (↑n, rest) := by
  simp only [strtol, readNumber_toDigits n hrest, Bool.false_eq_true, if_false]
  rw [Int.min_eq_right (Int.ofNat_le.mpr hn)]

theorem atoi_toDigits {n : ℕ} (hn : n < 2 ^ 31) : atoi (Nat.toDigits 10 n) = n := by
  have hread : strtol (Nat.toDigits 10 n) = (↑n, []) := by
    have h : strtol (Nat.toDigits 10 n ++ []) = (↑n, []) :=
      strtol_toDigits (by rw [longMax]; omega) (by rintro ch ⟨⟩)
    rwa [append_nil] at h
  rw [atoi, hread]
  exact Int.bmod_eq_of_le (by omega) (by omega)

theorem strtoul_toDigits {n : ℕ} (hn : n ≤ ulongMax)
    (hrest : ∀ ch ∈ rest.head?, ch.isDigit = false) :
    strtoul (Nat.toDigits 10 n ++ rest) = (n, rest) := by
  simp only [strtoul, readNumber_toDigits n hrest, Bool.false_eq_true, if_false]
  rw [if_neg hn.not_gt]

theorem strtol_intText {z : ℤ} (hmin : -2 ^ 63 ≤ z) (hmax : z < 2 ^ 63) :
    strtol (intText z) = (z, []) := by
  have hnil : ∀ ch ∈ ([] : Text).head?, ch.isDigit = false := by rintro ch ⟨⟩
  cases z with
  | ofNat n =>
    have hn : n ≤ longMax := by
      rw [Int.ofNat_eq_natCast] at hmax
      rw [longMax]
      omega
    have hread := strtol_toDigits hn hnil
    rwa [append_nil] at hread
  | negSucc n =>
    have hread := readNumber_minus (n + 1) hnil
    rw [append_nil] at hread
    rw [intText, strtol, hread]
    dsimp only
    have hle : -(longMax : ℤ) - 1 ≤ -((n + 1 : ℕ) : ℤ) := by
      rw [longMax]
      omega
    rw [if_pos rfl, Int.max_eq_right hle]
    rfl

theorem atoi_intText {z : ℤ} (hmin : -2 ^ 31 ≤ z) (hmax : z < 2 ^ 31) : atoi (intText z) = z := by
  rw [atoi, strtol_intText (by omega) (by omega)]
  exact Int.bmod_eq_of_le (by omega) (by omega)

end Text
