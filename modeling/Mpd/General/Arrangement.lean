import Mathlib.Order.Interval.Finset.Nat
import Mathlib.GroupTheory.Perm.Basic
import Mpd.General.Loop

/-!
# Rearranging a segment of an array

An array is a function on `ℕ`; a program that permutes the entries at the indices of
`[lo, hi)` and leaves the others alone turns `a` into `a ∘ e` for a permutation `e` that fixes
every index outside the segment (`Rearranged lo hi a b`). Rearrangements compose, contain the
exchange of two entries (`rearranged_swapAt`) and the write-back of a permuted list
(`rearranged_writeList`), and keep an array that is a bijection of `[0, n)` one.

The second half is the shuffle: `fisherYates lo hi a r` exchanges each entry of the segment
with one drawn from the rest of it. It is **sound** — the result is a rearrangement — and
**complete** — every rearrangement of the segment is the result for some draws
(`exists_fisherYates_eq`).
-/

namespace Arrangement

open Equiv

open List Function

universe u

variable {α : Type u} {lo hi n : ℕ} {a b c : ℕ → α}

/-! ### Permutations supported in a segment -/

def FixesOutside (lo hi : ℕ) (e : Equiv.Perm ℕ) : Prop :=
  ∀ i, ¬ (lo ≤ i ∧ i < hi) → e i = i

theorem FixesOutside.refl : FixesOutside lo hi (Equiv.refl ℕ) :=
  fun _ _ => rfl

theorem FixesOutside.mul {e e' : Equiv.Perm ℕ} (h : FixesOutside lo hi e)
    (h' : FixesOutside lo hi e') : FixesOutside lo hi (e * e') := by
  intro i hi
  rw [Equiv.Perm.mul_apply, h' i hi, h i hi]

theorem FixesOutside.inv {e : Equiv.Perm ℕ} (h : FixesOutside lo hi e) :
    FixesOutside lo hi e⁻¹ := by
  intro i hi
  rw [Equiv.Perm.inv_eq_iff_eq, h i hi]

theorem FixesOutside.mono {lo' hi' : ℕ} {e : Equiv.Perm ℕ} (h : FixesOutside lo hi e)
    (hlo : lo' ≤ lo) (hhi : hi ≤ hi') : FixesOutside lo' hi' e :=
  fun i hi => h i (by omega)

theorem FixesOutside.swap {i j : ℕ} (hi₁ : lo ≤ i) (hi₂ : i < hi) (hj₁ : lo ≤ j) (hj₂ : j < hi) :
    FixesOutside lo hi (Equiv.swap i j) := by
  intro k hk
  refine swap_apply_of_ne_of_ne ?_ ?_ <;> rintro rfl <;> omega

theorem FixesOutside.apply_mem {e : Equiv.Perm ℕ} (h : FixesOutside lo hi e) {i : ℕ}
    (hi₁ : lo ≤ i) (hi₂ : i < hi) : lo ≤ e i ∧ e i < hi := by
  by_contra hc
  have hfix : e (e i) = e i := h (e i) hc
  have : e i = i := e.injective hfix
  omega

theorem FixesOutside.bijOn {e : Equiv.Perm ℕ} (h : FixesOutside lo hi e) (hn : hi ≤ n) :
    Set.BijOn e (Set.Iio n) (Set.Iio n) := by
  have hmaps : ∀ {e : Equiv.Perm ℕ}, FixesOutside lo hi e → ∀ i < n, e i < n := by
    intro e h i hin
    by_cases hs : lo ≤ i ∧ i < hi
    · exact (h.apply_mem hs.1 hs.2).2.trans_le hn
    · rwa [h i hs]
  refine ⟨fun i hin => hmaps h i hin, e.injective.injOn, fun i hin => ?_⟩
  exact ⟨e⁻¹ i, hmaps h.inv i hin, e.apply_symm_apply i⟩

theorem bijOn_of_injOn {f : ℕ → ℕ} (hmaps : ∀ i < n, f i < n)
    (hinj : ∀ i < n, ∀ j < n, f i = f j → i = j) :
    Set.BijOn f (Set.Iio n) (Set.Iio n) := by
  refine ⟨hmaps, fun i hi j hj => hinj i hi j hj, ?_⟩
  have := Finset.surjOn_of_injOn_of_card_le (s := Finset.range n) (t := Finset.range n) f
    (fun i hi => by simpa using hmaps i (by simpa using hi))
    (fun i hi j hj => hinj i (by simpa using hi) j (by simpa using hj)) le_rfl
  rwa [Finset.coe_range] at this

/-! ### Rearrangements -/

def Rearranged (lo hi : ℕ) (a b : ℕ → α) : Prop :=
  ∃ e : Equiv.Perm ℕ, FixesOutside lo hi e ∧ b = a ∘ e

theorem Rearranged.refl : Rearranged lo hi a a :=
  ⟨Equiv.refl ℕ, .refl, rfl⟩

theorem Rearranged.trans (hab : Rearranged lo hi a b) (hbc : Rearranged lo hi b c) :
    Rearranged lo hi a c := by
  obtain ⟨e, he, rfl⟩ := hab
  obtain ⟨e', he', rfl⟩ := hbc
  exact ⟨e * e', he.mul he', rfl⟩

theorem Rearranged.mono {lo' hi' : ℕ} (h : Rearranged lo hi a b) (hlo : lo' ≤ lo)
    (hhi : hi ≤ hi') : Rearranged lo' hi' a b := by
  obtain ⟨e, he, rfl⟩ := h
  exact ⟨e, he.mono hlo hhi, rfl⟩

theorem Rearranged.eq_outside (h : Rearranged lo hi a b) {i : ℕ} (hi' : ¬ (lo ≤ i ∧ i < hi)) :
    b i = a i := by
  obtain ⟨e, he, rfl⟩ := h
  rw [comp_apply, he i hi']

theorem Rearranged.bijOn {a b : ℕ → ℕ} (h : Rearranged lo hi a b) (hn : hi ≤ n)
    (ha : Set.BijOn a (Set.Iio n) (Set.Iio n)) : Set.BijOn b (Set.Iio n) (Set.Iio n) := by
  obtain ⟨e, he, rfl⟩ := h
  exact ha.comp (he.bijOn hn)

/-! ### Exchanging two entries -/

def swapAt (a : ℕ → α) (i j : ℕ) : ℕ → α :=
  update (update a i (a j)) j (a i)

theorem swapAt_eq_comp (a : ℕ → α) (i j : ℕ) : swapAt a i j = a ∘ Equiv.swap i j := by
  funext k
  rw [swapAt, comp_apply]
  rcases eq_or_ne k j with rfl | hj
  · rw [update_self, swap_apply_right]
  · rw [update_of_ne hj]
    rcases eq_or_ne k i with rfl | hi
    · rw [update_self, swap_apply_left]
    · rw [update_of_ne hi, swap_apply_of_ne_of_ne hi hj]

theorem rearranged_swapAt {i j : ℕ} (hi₁ : lo ≤ i) (hi₂ : i < hi) (hj₁ : lo ≤ j) (hj₂ : j < hi) :
    Rearranged lo hi a (swapAt a i j) :=
  ⟨Equiv.swap i j, .swap hi₁ hi₂ hj₁ hj₂, swapAt_eq_comp a i j⟩

/-! ### Reading and writing a segment as a list -/

def readList (a : ℕ → α) (lo n : ℕ) : List α :=
  (range n).map fun k => a (lo + k)

def writeList (a : ℕ → α) (lo : ℕ) : List α → ℕ → α
  | [] => a
  | x :: l => writeList (update a lo x) (lo + 1) l

theorem writeList_of_lt {l : List α} {i : ℕ} (h : i < lo) : writeList a lo l i = a i := by
  induction l generalizing a lo with
  | nil => rfl
  | cons x l ih => rw [writeList, ih (by omega), update_of_ne (by omega)]

theorem writeList_add {l : List α} {k : ℕ} (h : k < l.length) :
    writeList a lo l (lo + k) = l[k] := by
  induction l generalizing a lo k with
  | nil => simp at h
  | cons x l ih =>
    cases k with
    | zero =>
      show writeList (update a lo x) (lo + 1) l lo = x
      rw [writeList_of_lt (Nat.lt_add_one lo), update_self]
    | succ k =>
      rw [writeList, show lo + (k + 1) = lo + 1 + k by omega, getElem_cons_succ]
      exact ih (by simpa using h)

theorem readList_succ (a : ℕ → α) (lo n : ℕ) :
    readList a lo (n + 1) = a lo :: readList a (lo + 1) n := by
  simp only [readList, range_succ_eq_map, map_cons, map_map, Nat.add_zero]
  refine congrArg _ (map_congr_left fun k _ => ?_)
  rw [comp_apply, Nat.succ_eq_add_one]
  congr 1
  omega

theorem length_readList (a : ℕ → α) (lo n : ℕ) : (readList a lo n).length = n := by
  simp [readList]

theorem writeList_readList (a : ℕ → α) (lo n : ℕ) : writeList a lo (readList a lo n) = a := by
  induction n generalizing lo with
  | zero => rfl
  | succ n ih => rw [readList_succ, writeList, update_eq_self, ih]

private theorem writeList_comp {e : Equiv.Perm ℕ} (l : List α) (he : ∀ i, lo ≤ i → e i = i) :
    writeList (a ∘ e) lo l = writeList a lo l ∘ e := by
  induction l generalizing a lo with
  | nil => rfl
  | cons x l ih =>
    have hupd : update (a ∘ e) lo x = update a lo x ∘ e := by
      conv_rhs => rw [← he lo le_rfl]
      exact (update_comp_eq_of_injective a e.injective lo x).symm
    rw [writeList, hupd, ih (fun i hi => he i (by omega)), writeList]

/-- **Write-back of a permuted list.** Two lists with the same entries, written at the same
place, leave arrays that are rearrangements of each other. -/
theorem rearranged_writeList {l l' : List α} (h : l.Perm l') : ∀ (a : ℕ → α) (lo : ℕ),
      Rearranged lo (lo + l.length) (writeList a lo l) (writeList a lo l') := by
  induction h with
  | nil => exact fun _ _ => .refl
  | cons x _ ih =>
    intro a lo
    exact (ih (update a lo x) (lo + 1)).mono (by omega) (by simp; omega)
  | swap x y l =>
    intro a lo
    have hswap : update (update a lo x) (lo + 1) y =
        update (update a lo y) (lo + 1) x ∘ Equiv.swap lo (lo + 1) := by
      funext k
      rcases eq_or_ne k lo with rfl | h₁
      · simp
      · rcases eq_or_ne k (lo + 1) with rfl | h₂
        · simp
        · simp [swap_apply_of_ne_of_ne h₁ h₂, h₁, h₂]
    refine ⟨Equiv.swap lo (lo + 1), .swap le_rfl (by simp) (by omega) (by simp), ?_⟩
    rw [writeList, writeList, writeList, writeList, hswap]
    refine writeList_comp l fun i hi => swap_apply_of_ne_of_ne ?_ ?_ <;> omega
  | trans h₁ _ ih₁ ih₂ =>
    intro a lo
    refine (ih₁ a lo).trans ?_
    rw [h₁.length_eq]
    exact ih₂ a lo

theorem rearranged_writeList_readList (a : ℕ → α) {l : List α}
    (h : l.Perm (readList a lo (hi - lo))) : Rearranged lo hi a (writeList a lo l) := by
  rcases Nat.lt_or_ge lo hi with hlt | hge
  · have := rearranged_writeList h.symm a lo
    rw [writeList_readList, length_readList] at this
    exact this.mono le_rfl (by omega)
  · rw [Nat.sub_eq_zero_of_le hge] at h
    rw [perm_nil.mp h]
    exact .refl

/-! ### The shuffle -/

def Draws : Type :=
  ℕ → ℕ

def Draws.pick (r : Draws) (lo hi : ℕ) : ℕ :=
  lo + r 0 % (hi - lo)

def Draws.rest (r : Draws) : Draws :=
  fun k => r (k + 1)

def Draws.cons (k : ℕ) (r : Draws) : Draws
  | 0 => k
  | j + 1 => r j

theorem Draws.le_pick (r : Draws) (lo hi : ℕ) : lo ≤ r.pick lo hi :=
  Nat.le_add_right _ _

theorem Draws.pick_lt (r : Draws) (h : lo < hi) : r.pick lo hi < hi := by
  have := Nat.mod_lt (r 0) (Nat.sub_pos_of_lt h)
  rw [pick]
  omega

theorem Draws.pick_cons (r : Draws) {j : ℕ} (h₁ : lo ≤ j) (h₂ : j < hi) :
    (Draws.cons (j - lo) r).pick lo hi = j := by
  have : (j - lo) % (hi - lo) = j - lo := Nat.mod_eq_of_lt (by omega)
  rw [pick, cons, this]
  omega

@[simp]
theorem Draws.rest_cons (k : ℕ) (r : Draws) : (Draws.cons k r).rest = r :=
  rfl

def shuffleStep (hi i : ℕ) (s : (ℕ → α) × Draws) : (ℕ → α) × Draws :=
  (swapAt s.1 i (s.2.pick i hi), s.2.rest)

def fisherYates (lo hi : ℕ) (a : ℕ → α) (r : Draws) : (ℕ → α) × Draws :=
  forUp lo hi (shuffleStep hi) (a, r)

theorem rearranged_forUp_shuffleStep {k : ℕ} (h₁ : lo ≤ k) (h₂ : k ≤ hi) (a : ℕ → α) (r : Draws) :
    Rearranged lo hi a (forUp lo k (shuffleStep hi) (a, r)).1 := by
  refine forUp_induction (motive := fun _ (s : (ℕ → α) × Draws) => Rearranged lo hi a s.1)
    h₁ .refl ?_
  intro i s hi₁ hi₂ hs
  have hlt : i < hi := hi₂.trans_le h₂
  have := s.2.le_pick i hi
  exact hs.trans (rearranged_swapAt hi₁ hlt (by omega) (s.2.pick_lt hlt))

/-- **Soundness.** A shuffle rearranges the segment. -/
theorem rearranged_fisherYates (hle : lo ≤ hi) (a : ℕ → α) (r : Draws) :
    Rearranged lo hi a (fisherYates lo hi a r).1 :=
  rearranged_forUp_shuffleStep hle le_rfl a r

/-- **Completeness.** Every rearrangement of the segment is the outcome of the shuffle for
some draws, whatever the generator produces afterwards. -/
theorem exists_fisherYates_eq {e : Equiv.Perm ℕ} (he : FixesOutside lo hi e) (a : ℕ → α)
    (r' : Draws) : ∃ r, fisherYates lo hi a r = (a ∘ e, r') := by
  obtain ⟨n, hn⟩ : ∃ n, hi - lo = n := ⟨_, rfl⟩
  induction n generalizing lo a e with
  | zero =>
    have hid : e = Equiv.refl ℕ := Equiv.ext fun i => he i (by omega)
    exact ⟨r', by rw [fisherYates, forUp_of_le (by omega), hid]; rfl⟩
  | succ n ih =>
    -- The first round must bring entry `e lo` to index `lo`; the rest of `e` then fixes `lo`.
    have hlt : lo < hi := by omega
    obtain ⟨h₁, h₂⟩ := he.apply_mem le_rfl hlt
    have he' : FixesOutside (lo + 1) hi (Equiv.swap lo (e lo) * e) := by
      intro i hi'
      rcases eq_or_ne i lo with rfl | hne
      · rw [Equiv.Perm.mul_apply, swap_apply_right]
      · have hi : ¬ (lo ≤ i ∧ i < hi) := by omega
        rw [Equiv.Perm.mul_apply, he i hi]
        exact swap_apply_of_ne_of_ne hne (by rintro rfl; omega)
    obtain ⟨r, hr⟩ := ih he' (swapAt a lo (e lo)) (by omega)
    refine ⟨.cons (e lo - lo) r, ?_⟩
    rw [fisherYates, forUp_of_lt hlt, shuffleStep, Draws.pick_cons r h₁ h₂, Draws.rest_cons,
      ← fisherYates, hr, swapAt_eq_comp, comp_assoc]
    congr 2
    funext i
    simp [swap_apply_self]

/-! ### Arrangements by descending key -/

section Key

variable {key : α → ℕ}

def Descending (key : α → ℕ) (lo hi : ℕ) (a : ℕ → α) : Prop :=
  ∀ i j, lo ≤ i → i ≤ j → j < hi → key (a j) ≤ key (a i)

theorem descending_writeList {l : List α} (h : l.Pairwise fun x y => key y ≤ key x) :
    Descending key lo (lo + l.length) (writeList a lo l) := by
  intro i j hi hij hj
  obtain ⟨k, rfl⟩ := Nat.exists_eq_add_of_le hi
  obtain ⟨k', rfl⟩ := Nat.exists_eq_add_of_le (hi.trans hij)
  have hk' : k' < l.length := by omega
  have hk : k < l.length := by omega
  rw [writeList_add hk', writeList_add hk]
  rcases (show k ≤ k' by omega).eq_or_lt with rfl | hlt
  · exact le_rfl
  · exact pairwise_iff_getElem.mp h k k' hk hk' hlt

theorem readList_comp_perm {e : Equiv.Perm ℕ} (he : FixesOutside lo hi e) (a : ℕ → α) :
    (readList (a ∘ e) lo (hi - lo)).Perm (readList a lo (hi - lo)) := by
  have hmap : ∀ b : ℕ → α, readList b lo (hi - lo) = (range' lo (hi - lo)).map b := by
    intro b
    rw [readList, range'_eq_map_range, map_map]
    rfl
  rw [hmap, hmap, ← map_map]
  refine List.Perm.map a ?_
  have hnodup : (range' lo (hi - lo)).Nodup := nodup_range'
  rw [perm_ext_iff_of_nodup (hnodup.map e.injective) hnodup]
  intro i
  simp only [mem_map, mem_range'_1]
  constructor
  · rintro ⟨j, hj, rfl⟩
    have := he.apply_mem hj.1 (by omega)
    omega
  · intro hi'
    have := he.inv.apply_mem hi'.1 (by omega)
    exact ⟨e⁻¹ i, by omega, e.apply_symm_apply i⟩

theorem Descending.key_eq {e : Equiv.Perm ℕ} (he : FixesOutside lo hi e)
    (ha : Descending key lo hi a) (hb : Descending key lo hi (a ∘ e)) (i : ℕ) :
    key (a (e i)) = key (a i) := by
  by_cases hi' : lo ≤ i ∧ i < hi
  · have hsorted : ∀ {b : ℕ → α}, Descending key lo hi b →
        ((readList b lo (hi - lo)).map key).Pairwise (· ≥ ·) := by
      intro b hb
      rw [readList, map_map, pairwise_map]
      refine pairwise_lt_range.imp_of_mem fun {j k} hj hk hjk => ?_
      rw [mem_range] at hj hk
      exact hb _ _ (by omega) (by omega) (by omega)
    have heq : (readList (a ∘ e) lo (hi - lo)).map key = (readList a lo (hi - lo)).map key :=
      ((readList_comp_perm he a).map key).eq_of_pairwise (fun _ _ _ _ h₁ h₂ => le_antisymm h₂ h₁)
        (hsorted hb) (hsorted ha)
    have hget := congrArg (fun l => l[i - lo]?) heq
    have hlt : i - lo < hi - lo := by omega
    have hadd : lo + (i - lo) = i := by omega
    simpa [readList, hlt, hadd] using hget
  · rw [he i hi']

end Key

end Arrangement
