import Mpd.General.Arrangement

/-!
# Places in descending arrangements

In an arrangement of `0, …, n - 1` by descending key, the elements with key `k` occupy the places
from `above key n k` up to `atLeast key n k`, and there they can stand in any order. So the place
of an element is determined only up to this range. `sameSide_iff` says when all descending
arrangements agree on which side of a fixed place an element stands, in comparison with the side
on which it stands of another element, and `forall_last_iff` when all of them agree on the last one.
-/

namespace Arrangement

open Nat

variable {key a : ℕ → ℕ} {n k x y u v : ℕ}

def above (key : ℕ → ℕ) (n k : ℕ) : ℕ :=
  ((Finset.range n).filter fun p => k < key p).card

def atLeast (key : ℕ → ℕ) (n k : ℕ) : ℕ :=
  ((Finset.range n).filter fun p => k ≤ key p).card

/-! ### The places of a key -/

theorem card_filter_comp (ha : Set.BijOn a (Set.Iio n) (Set.Iio n)) (P : ℕ → Prop)
    [DecidablePred P] :
    ((Finset.range n).filter fun i => P (a i)).card = ((Finset.range n).filter P).card := by
  refine Finset.card_nbij a (fun i hi => ?_) (fun i hi j hj => ?_) fun p hp => ?_
  · rw [Finset.mem_coe, Finset.mem_filter, Finset.mem_range] at hi ⊢
    exact ⟨ha.mapsTo hi.1, hi.2⟩
  · rw [Finset.mem_coe, Finset.mem_filter, Finset.mem_range] at hi hj
    exact ha.injOn hi.1 hj.1
  · rw [Finset.mem_coe, Finset.mem_filter, Finset.mem_range] at hp
    obtain ⟨i, hi, rfl⟩ := ha.surjOn hp.1
    exact ⟨i, by rw [Finset.mem_coe, Finset.mem_filter, Finset.mem_range]; exact ⟨hi, hp.2⟩, rfl⟩

section Places

variable (ha : Set.BijOn a (Set.Iio n) (Set.Iio n)) (hd : Descending key 0 n a)

include ha hd

theorem above_le (hk : key (a x) ≤ k) : above key n k ≤ x := by
  rw [above, ← card_filter_comp ha fun p => k < key p, ← Finset.card_range x]
  refine Finset.card_le_card fun i hi => ?_
  rw [Finset.mem_filter, Finset.mem_range] at hi
  rw [Finset.mem_range]
  by_contra hle
  have := hd x i (zero_le x) (by omega) hi.1
  omega

theorem lt_above (hx : x < n) (hk : k < key (a x)) : x < above key n k := by
  rw [above, ← card_filter_comp ha fun p => k < key p, ← succ_le_iff,
    ← Finset.card_range (Nat.succ x)]
  refine Finset.card_le_card fun i hi => ?_
  rw [Finset.mem_range] at hi
  rw [Finset.mem_filter, Finset.mem_range]
  have := hd i x (zero_le i) (by omega) hx
  omega

theorem lt_above_iff (hx : x < n) : x < above key n k ↔ k < key (a x) := by
  refine ⟨fun h => ?_, lt_above ha hd hx⟩
  by_contra hle
  have := above_le ha hd (not_lt.mp hle)
  omega

theorem lt_atLeast_iff (hx : x < n) : x < atLeast key n k ↔ k ≤ key (a x) := by
  cases k with
  | zero =>
    rw [atLeast, Finset.filter_true_of_mem fun _ _ => zero_le _, Finset.card_range]
    exact iff_of_true hx (zero_le _)
  | succ k => exact lt_above_iff ha hd hx

theorem key_eq_iff (hx : x < n) : key (a x) = k ↔ above key n k ≤ x ∧ x < atLeast key n k := by
  rw [lt_atLeast_iff ha hd hx, ← not_lt, lt_above_iff ha hd hx]
  omega

end Places

/-! ### Elements can be placed -/

theorem exists_place (ha : Set.BijOn a (Set.Iio n) (Set.Iio n)) (hu : u < n) (hx : x < n)
    (hkey : key u = key (a x)) :
    ∃ e : Equiv.Perm ℕ, FixesOutside 0 n e ∧ (∀ i, key (a (e i)) = key (a i)) ∧ a (e x) = u ∧
      ∀ i, i ≠ x → a i ≠ u → a (e i) = a i := by
  obtain ⟨j, hj, rfl⟩ := ha.surjOn (show u ∈ Set.Iio n from hu)
  refine ⟨Equiv.swap j x, .swap (zero_le j) hj (zero_le x) hx, fun i => ?_, ?_, fun i hi hne => ?_⟩
  · rcases eq_or_ne i j with rfl | hij
    · rw [Equiv.swap_apply_left, hkey]
    · rcases eq_or_ne i x with rfl | hix
      · rw [Equiv.swap_apply_right, hkey]
      · rw [Equiv.swap_apply_of_ne_of_ne hij hix]
  · rw [Equiv.swap_apply_right]
  · rw [Equiv.swap_apply_of_ne_of_ne (fun hij => hne (by rw [hij])) hi]

theorem Descending.comp (hd : Descending key 0 n a) {e : Equiv.Perm ℕ}
    (hkey : ∀ i, key (a (e i)) = key (a i)) : Descending key 0 n (a ∘ e) := by
  intro i j hi hij hj
  rw [Function.comp_apply, Function.comp_apply, hkey, hkey]
  exact hd i j hi hij hj

theorem exists_descending_place (ha : Set.BijOn a (Set.Iio n) (Set.Iio n))
    (hd : Descending key 0 n a) (hu : u < n) (hx : x < n) (h₁ : above key n (key u) ≤ x)
    (h₂ : x < atLeast key n (key u)) :
    ∃ b, Rearranged 0 n a b ∧ Descending key 0 n b ∧ b x = u := by
  obtain ⟨e, he, hkey, hplace, -⟩ :=
    exists_place ha hu hx ((key_eq_iff ha hd hx).mpr ⟨h₁, h₂⟩).symm
  exact ⟨a ∘ e, ⟨e, he, rfl⟩, hd.comp hkey, hplace⟩

theorem exists_descending_places (ha : Set.BijOn a (Set.Iio n) (Set.Iio n))
    (hd : Descending key 0 n a) (hu : u < n) (hv : v < n) (huv : u ≠ v) (hkey : key u = key v)
    (hx : x < n) (hy : y < n) (hxy : x ≠ y) (hx₁ : above key n (key u) ≤ x)
    (hx₂ : x < atLeast key n (key u)) (hy₁ : above key n (key u) ≤ y)
    (hy₂ : y < atLeast key n (key u)) :
    ∃ b, Rearranged 0 n a b ∧ Descending key 0 n b ∧ b x = u ∧ b y = v := by
  obtain ⟨b, hab, hdb, hbx⟩ := exists_descending_place ha hd hu hx hx₁ hx₂
  have hb := hab.bijOn le_rfl ha
  have hky : key v = key (b y) := by
    rw [← hkey, (key_eq_iff hb hdb hy).mpr ⟨hy₁, hy₂⟩]
  obtain ⟨e, he, hkeys, hplace, hstay⟩ := exists_place hb hv hy hky
  refine ⟨b ∘ e, hab.trans ⟨e, he, rfl⟩, hdb.comp hkeys, ?_, hplace⟩
  exact (hstay x hxy (hbx.trans_ne huv)).trans hbx

/-! ### What all descending arrangements agree on -/

section Agree

variable (ha : Set.BijOn a (Set.Iio n) (Set.Iio n))
  (hsort : ∃ b, Rearranged 0 n a b ∧ Descending key 0 n b)

def SameSide (key : ℕ → ℕ) (n : ℕ) (a : ℕ → ℕ) (d u v : ℕ) : Prop :=
  ∀ b, Rearranged 0 n a b → Descending key 0 n b →
    ∀ x < n, ∀ y < n, b x = u → b y = v → (d < x ↔ y < x)

include ha

theorem Rearranged.exists_place_eq {b : ℕ → ℕ} (hab : Rearranged 0 n a b) (hu : u < n) :
    ∃ x < n, b x = u :=
  (hab.bijOn le_rfl ha).surjOn (show u ∈ Set.Iio n from hu)

theorem sameSide_of_keys {d : ℕ} (huv : u ≠ v) (hkeys : key u < key v ∧ d < above key n (key u) ∨
      key v < key u ∧ atLeast key n (key u) ≤ d + 1 ∨
      key u = key v ∧ atLeast key n (key u) = above key n (key u) + 2 ∧
        d = above key n (key u)) : SameSide key n a d u v := by
  intro b hab hdb x hx y hy hbx hby
  have hb := hab.bijOn le_rfl ha
  have hxu := (key_eq_iff hb hdb hx).mp (congrArg key hbx)
  have hyv := (key_eq_iff hb hdb hy).mp (congrArg key hby)
  have hbefore : ∀ {i j : ℕ}, j < n → key (b i) < key (b j) → j < i := by
    intro i j hj hlt
    by_contra hle
    have := hdb i j (zero_le i) (not_lt.mp hle) hj
    omega
  rcases hkeys with ⟨hlt, hd⟩ | ⟨hgt, hd⟩ | ⟨heq, hB, hd⟩
  · exact iff_of_true (by omega) (hbefore hy (by rwa [hbx, hby]))
  · have hxy : x < y := hbefore hx (by rwa [hbx, hby])
    omega
  · rw [← heq] at hyv
    have hne : x ≠ y := fun h => huv (hbx.symm.trans (h ▸ hby))
    omega

include hsort

theorem sameSide_iff (hu : u < n) (hv : v < n) (huv : u ≠ v) (d : ℕ) : SameSide key n a d u v ↔
      key u < key v ∧ d < above key n (key u) ∨
      key v < key u ∧ atLeast key n (key u) ≤ d + 1 ∨
      key u = key v ∧ atLeast key n (key u) = above key n (key u) + 2 ∧
        d = above key n (key u) := by
  refine ⟨fun hside => ?_, sameSide_of_keys ha huv⟩
  obtain ⟨b₀, hab₀, hd⟩ := hsort
  have hb₀ := hab₀.bijOn le_rfl ha
  obtain ⟨x₀, hx₀, hux₀⟩ := hab₀.exists_place_eq ha hu
  obtain ⟨y₀, hy₀, hvy₀⟩ := hab₀.exists_place_eq ha hv
  have hxu := (key_eq_iff hb₀ hd hx₀).mp (congrArg key hux₀)
  have hyv := (key_eq_iff hb₀ hd hy₀).mp (congrArg key hvy₀)
  have hBn : atLeast key n (key u) ≤ n :=
    (Finset.card_filter_le _ _).trans (Finset.card_range n).le
  rcases lt_trichotomy (key u) (key v) with hlt | heq | hgt
  · -- put `u` first among its places
    obtain ⟨b, hb, hdb, hbu⟩ := exists_descending_place hb₀ hd hu (by omega) le_rfl (by omega)
    have hab := hab₀.trans hb
    obtain ⟨y, hy, hbv⟩ := hab.exists_place_eq ha hv
    refine .inl ⟨hlt, (hside b hab hdb _ (by omega) y hy hbu hbv).mpr ?_⟩
    by_contra hle
    have := hdb _ y (zero_le _) (not_lt.mp hle) hy
    rw [hbu, hbv] at this
    omega
  · -- put `u` and `v` first, and last, among their places
    rw [← heq] at hyv
    have hne : x₀ ≠ y₀ := fun h => huv (hux₀.symm.trans (h ▸ hvy₀))
    obtain ⟨b, hb, hdb, hbu, hbv⟩ := exists_descending_places hb₀ hd hu hv huv heq
      (show above key n (key u) + 1 < n by omega) (show above key n (key u) < n by omega)
      (by omega) (by omega) (by omega) le_rfl (by omega)
    have h₁ := hside b (hab₀.trans hb) hdb _ (by omega) _ (by omega) hbu hbv
    obtain ⟨b, hb, hdb, hbu, hbv⟩ := exists_descending_places hb₀ hd hu hv huv heq
      (show atLeast key n (key u) - 2 < n by omega) (show atLeast key n (key u) - 1 < n by omega)
      (by omega) (by omega) (by omega) (by omega) (by omega)
    have h₂ := hside b (hab₀.trans hb) hdb _ (by omega) _ (by omega) hbu hbv
    exact .inr (.inr ⟨heq, by omega, by omega⟩)
  · -- put `u` last among its places
    obtain ⟨b, hb, hdb, hbu⟩ := exists_descending_place hb₀ hd hu
      (show atLeast key n (key u) - 1 < n by omega) (by omega) (by omega)
    have hab := hab₀.trans hb
    obtain ⟨y, hy, hbv⟩ := hab.exists_place_eq ha hv
    have hnot : ¬ y < atLeast key n (key u) - 1 := by
      intro hlt
      have := hdb y _ (zero_le _) hlt.le (show atLeast key n (key u) - 1 < n by omega)
      rw [hbu, hbv] at this
      omega
    have := hside b hab hdb _ (by omega) y hy hbu hbv
    exact .inr (.inl ⟨hgt, by omega⟩)

theorem forall_last_iff (hv : v < n) :
    (∀ b, Rearranged 0 n a b → Descending key 0 n b → b (n - 1) = v) ↔
      ∀ w < n, w ≠ v → key v < key w := by
  have hlast : n - 1 < n := by omega
  constructor
  · intro hall w hw hne
    obtain ⟨b₀, hab₀, hd⟩ := hsort
    have hb₀ := hab₀.bijOn le_rfl ha
    have hbv := hall b₀ hab₀ hd
    by_contra hle
    obtain ⟨x, hx, hbx⟩ := hab₀.exists_place_eq ha hw
    have hmin := hd x (n - 1) (zero_le x) (by omega) hlast
    rw [hbv, hbx] at hmin
    have hkey : key (b₀ (n - 1)) = key w := by
      rw [hbv]
      omega
    obtain ⟨h₁, h₂⟩ := (key_eq_iff hb₀ hd hlast).mp hkey
    obtain ⟨b, hb, hdb, hbw⟩ := exists_descending_place hb₀ hd hw hlast h₁ h₂
    exact hne (hbw.symm.trans (hall b (hab₀.trans hb) hdb))
  · intro hmin b hab hdb
    have hb := hab.bijOn le_rfl ha
    by_contra hne
    obtain ⟨y, hy, hbv⟩ := hab.exists_place_eq ha hv
    have h₁ := hmin _ (hb.mapsTo hlast) hne
    have h₂ := hdb y (n - 1) (zero_le y) (by omega) hlast
    rw [hbv] at h₂
    omega

theorem forall_place_iff (hu : u < n) (hx : x < n) :
    (∀ b, Rearranged 0 n a b → Descending key 0 n b → b x = u) ↔
      (∀ w < n, w ≠ u → key w ≠ key u) ∧ above key n (key u) = x := by
  constructor
  · intro hall
    obtain ⟨b₀, hab₀, hd⟩ := hsort
    have hb₀ := hab₀.bijOn le_rfl ha
    have hbu := hall b₀ hab₀ hd
    have hplace := (key_eq_iff hb₀ hd hx).mp (congrArg key hbu)
    have hunique : ∀ w < n, w ≠ u → key w ≠ key u := by
      intro w hw hne hkey
      rw [← hkey] at hplace
      obtain ⟨b, hb, hdb, hbw⟩ := exists_descending_place hb₀ hd hw hx hplace.1 hplace.2
      exact hne (hbw.symm.trans (hall b (hab₀.trans hb) hdb))
    refine ⟨hunique, ?_⟩
    -- whatever stands at the first place of this key is `u`
    have hfirst : above key n (key u) < n := by omega
    have hkey := (key_eq_iff hb₀ hd hfirst).mpr ⟨le_rfl, by omega⟩
    by_contra hne
    exact hunique _ (hb₀.mapsTo hfirst) (fun h => hne (hb₀.injOn hfirst hx (h.trans hbu.symm))) hkey
  · rintro ⟨hunique, rfl⟩ b hab hdb
    have hb := hab.bijOn le_rfl ha
    obtain ⟨y, hy, hbu⟩ := hab.exists_place_eq ha hu
    have hplace := (key_eq_iff hb hdb hy).mp (congrArg key hbu)
    have hkey := (key_eq_iff hb hdb hx).mpr ⟨le_rfl, by omega⟩
    by_contra hne
    exact hunique _ (hb.mapsTo hx) hne hkey

end Agree

end Arrangement
