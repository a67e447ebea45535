import Mpd.Queue.Order

/-!
# The play queue: what a shuffle can do

`queue_shuffle_order_range_with_priority` sorts a range of order numbers by priority and then
shuffles each group of equal priority. Two facts describe it completely:

* **soundness** (`shuffleOrder_succeeds`): it never fails its assertion, it changes nothing
  but the order array (and the generator), it rearranges the range, and leaves it in
  non-increasing priority;
* **completeness** (`exists_shuffleOrder_eq`): every rearrangement in non-increasing
  priority is the outcome for some behaviour of the generator.
-/

namespace Mpd

open Arrangement

namespace Queue

variable {σ : Type} {q q' : Queue σ} {start stop : ℕ}

def priorityAt (q : Queue σ) (position : ℕ) : ℕ :=
  (q.items position).priority

def withOrder (q : Queue σ) (s : (ℕ → ℕ) × Draws) : Queue σ :=
  { q with order := s.1, rand := s.2 }

def SameSongs (q q' : Queue σ) : Prop :=
  q' = q.withOrder (q'.order, q'.rand)

theorem SameSongs.refl : SameSongs q q :=
  rfl

theorem SameSongs.trans {q'' : Queue σ} (h : SameSongs q q') (h' : SameSongs q' q'') :
    SameSongs q q'' := by
  rw [h', h]
  rfl

theorem sameSongs_withOrder (q : Queue σ) (s : (ℕ → ℕ) × Draws) : SameSongs q (q.withOrder s) :=
  rfl

/-! ### Shuffling a range -/

def beforeRound (q : Queue σ) (start stop i : ℕ) : Queue σ :=
  forUp start i (fun i q => q.drawn.swapOrder i (q.rand.pick i stop)) q

theorem beforeRound_eq (q : Queue σ) (start stop i : ℕ) : q.beforeRound start stop i =
      q.withOrder (forUp start i (shuffleStep stop) (q.order, q.rand)) :=
  (forUp_map (s := (q.order, q.rand)) q.withOrder fun _ _ _ _ => rfl).symm

theorem shuffleOrderRange_eq (q : Queue σ) (start stop : ℕ) :
    q.shuffleOrderRange start stop = q.withOrder (fisherYates start stop q.order q.rand) :=
  q.beforeRound_eq start stop stop

theorem sameSongs_shuffleOrderRange (q : Queue σ) (start stop : ℕ) :
    SameSongs q (q.shuffleOrderRange start stop) := by
  rw [shuffleOrderRange_eq]
  exact sameSongs_withOrder _ _

theorem rearranged_shuffleOrderRange (h : start ≤ stop) :
    Rearranged start stop q.order (q.shuffleOrderRange start stop).order := by
  rw [shuffleOrderRange_eq]
  exact rearranged_fisherYates h q.order q.rand

/-! ### Sorting by priority -/

theorem compareOrderPriority_le_zero {p p' : ℕ} :
    q.compareOrderPriority p p' ≤ 0 ↔ q.priorityAt p' ≤ q.priorityAt p := by
  simp only [compareOrderPriority, priorityAt]
  split_ifs <;> omega

theorem rearranged_sortOrderByPriority [Qsort] (q : Queue σ) (start stop : ℕ) :
    Rearranged start stop q.order (q.sortOrderByPriority start stop).order :=
  rearranged_writeList_readList q.order (Qsort.perm _ _)

theorem descending_sortOrderByPriority [Qsort] (q : Queue σ) (h : start ≤ stop) :
    Descending q.priorityAt start stop (q.sortOrderByPriority start stop).order := by
  have hsorted := Qsort.pairwise q.compareOrderPriority (readList q.order start (stop - start))
    (fun a b => by simp only [compareOrderPriority_le_zero]; omega)
    (fun a b c => by simp only [compareOrderPriority_le_zero]; omega)
  have hlen := (Qsort.perm q.compareOrderPriority (readList q.order start (stop - start))).length_eq
  rw [length_readList] at hlen
  have hdesc : Descending q.priorityAt start _ (writeList q.order start _) := descending_writeList
    (hsorted.imp fun {a b} hab => compareOrderPriority_le_zero.mp hab)
  rwa [hlen, Nat.add_sub_cancel' h] at hdesc

/-! ### Shuffling the groups -/

/-- While the loop stands at `i`, the group that began at `groupStart` reaches up to `i`. -/
structure Group (q : Queue σ) (stop i groupStart groupPriority : ℕ) : Prop where
  lt : groupStart < i
  le : i ≤ stop
  descending : Descending q.priorityAt groupStart stop q.order
  priority_eq : ∀ j, groupStart ≤ j → j < i → q.orderPriority j = groupPriority

variable {i groupStart groupPriority : ℕ}

section

variable (h : Group q stop i groupStart groupPriority)
include h

theorem Group.extend (hi : i < stop) (hp : q.orderPriority i = groupPriority) :
    Group q stop (i + 1) groupStart groupPriority := by
  refine ⟨by have := h.lt; omega, hi, h.descending, fun j h₁ h₂ => ?_⟩
  rcases Nat.lt_succ_iff_lt_or_eq.mp h₂ with hlt | rfl
  · exact h.priority_eq j h₁ hlt
  · exact hp

theorem Group.orderPriority_eq
    (hsame : SameSongs q q') (hre : Rearranged groupStart i q.order q'.order) (j : ℕ) :
    q'.orderPriority j = q.orderPriority j := by
  have hitems : q'.items = q.items := by rw [hsame]; rfl
  by_cases hj : groupStart ≤ j ∧ j < i
  · obtain ⟨e, he, hord⟩ := hre
    have hmem := he.apply_mem hj.1 hj.2
    rw [h.priority_eq j hj.1 hj.2, ← h.priority_eq (e j) hmem.1 hmem.2, orderPriority, hitems, hord]
    rfl
  · rw [orderPriority, orderPriority, hitems, hre.eq_outside hj]

theorem Group.orderPriority_le (hi : i < stop) : q.orderPriority i ≤ groupPriority := by
  have := h.descending groupStart i le_rfl h.lt.le hi
  rwa [← h.priority_eq groupStart le_rfl h.lt]

theorem Group.next (hi : i < stop)
    (hsame : SameSongs q q') (hre : Rearranged groupStart i q.order q'.order) :
    Group q' stop (i + 1) i (q.orderPriority i) := by
  have hitems : q'.items = q.items := by rw [hsame]; rfl
  have hlt := h.lt
  refine ⟨Nat.lt_succ_self i, hi, fun j k h₁ h₂ h₃ => ?_, fun j h₁ h₂ => ?_⟩
  · have := h.descending j k (by omega) h₂ h₃
    rwa [priorityAt, priorityAt, hitems, hre.eq_outside (by omega), hre.eq_outside (by omega)]
  · obtain rfl : j = i := by omega
    exact h.orderPriority_eq hsame hre j

end

theorem shuffleGroups_succeeds {n : ℕ} (hn : i + n = stop)
    (h : Group q stop i groupStart groupPriority) :
    (shuffleGroups stop n i groupStart groupPriority q).Succeeds fun q' => SameSongs q q' ∧
      Rearranged groupStart stop q.order q'.order ∧
      ∀ j, q'.orderPriority j = q.orderPriority j := by
  induction n generalizing i groupStart groupPriority q with
  | zero =>
    obtain rfl : i = stop := by omega
    have hre := rearranged_shuffleOrderRange (q := q) h.lt.le
    have hsame := q.sameSongs_shuffleOrderRange groupStart i
    exact .ok ⟨hsame, hre, h.orderPriority_eq hsame hre⟩
  | succ n ih =>
    have hlt : i < stop := by omega
    have hle := h.orderPriority_le hlt
    rw [shuffleGroups, if_neg (by omega)]
    refine .ite (fun _ => ?_) fun heq => ?_
    · have hre := rearranged_shuffleOrderRange (q := q) h.lt.le
      have hsame := q.sameSongs_shuffleOrderRange groupStart i
      refine (ih (by omega) (h.next hlt hsame hre)).mono ?_
      rintro q' ⟨hsame', hre', hprio⟩
      refine ⟨hsame.trans hsame', ?_, fun j => ?_⟩
      · exact (hre.mono le_rfl hlt.le).trans (hre'.mono h.lt.le le_rfl)
      · rw [hprio j, h.orderPriority_eq hsame hre j]
    · exact ih (by omega) (h.extend hlt (not_not.mp heq))

/-! ### The exchanges of the shuffle -/

def orderSwaps (q : Queue σ) (start stop : ℕ) : List (Queue σ × ℕ × ℕ) :=
  (List.range' start (stop - start)).map fun i =>
    let q := q.beforeRound start stop i
    (q, i, q.rand.pick i stop)

def groupSwaps (stop : ℕ) : ℕ → ℕ → ℕ → ℕ → Queue σ → List (Queue σ × ℕ × ℕ)
  | 0, _, groupStart, _, q => q.orderSwaps groupStart stop
  | n + 1, i, groupStart, groupPriority, q =>
    let priority := q.orderPriority i
    if priority ≠ groupPriority then
      q.orderSwaps groupStart i ++
        groupSwaps stop n (i + 1) i priority (q.shuffleOrderRange groupStart i)
    else groupSwaps stop n (i + 1) groupStart groupPriority q

/-- The exchanges lead from one queue to the other. -/
inductive Exchanged : Queue σ → List (Queue σ × ℕ × ℕ) → Queue σ → Prop
  | nil {q : Queue σ} : Exchanged q [] q
  | cons {q q' : Queue σ} {i j : ℕ} {swaps : List (Queue σ × ℕ × ℕ)} :
      Exchanged (q.drawn.swapOrder i j) swaps q' → Exchanged q ((q, i, j) :: swaps) q'

theorem Exchanged.append {q'' : Queue σ} {swaps swaps' : List (Queue σ × ℕ × ℕ)}
    (h : Exchanged q swaps q') (h' : Exchanged q' swaps' q'') :
    Exchanged q (swaps ++ swaps') q'' := by
  induction h with
  | nil => exact h'
  | cons _ ih => exact .cons (ih h')

theorem orderSwaps_of_lt (h : start < stop) : q.orderSwaps start stop =
    (q, start, q.rand.pick start stop) ::
      (q.drawn.swapOrder start (q.rand.pick start stop)).orderSwaps (start + 1) stop := by
  obtain ⟨n, hn⟩ : ∃ n, stop - start = n + 1 := ⟨stop - start - 1, by omega⟩
  rw [orderSwaps, hn, List.range'_succ, List.map_cons, beforeRound, forUp_of_le le_rfl, orderSwaps,
    show stop - (start + 1) = n by omega]
  refine congrArg _ (List.map_congr_left fun i hi => ?_)
  rw [beforeRound, forUp_of_lt (List.mem_range'_1.mp hi).1, beforeRound]

theorem exchanged_orderSwaps (q : Queue σ) (start stop : ℕ) :
    Exchanged q (q.orderSwaps start stop) (q.shuffleOrderRange start stop) := by
  obtain ⟨n, hn⟩ : ∃ n, stop - start = n := ⟨_, rfl⟩
  induction n generalizing start q with
  | zero =>
    rw [orderSwaps, hn, shuffleOrderRange, forUp_of_le (by omega)]
    exact .nil
  | succ n ih =>
    have hlt : start < stop := by omega
    rw [orderSwaps_of_lt hlt, shuffleOrderRange, forUp_of_lt hlt]
    exact .cons (ih _ _ (by omega))

theorem exchanged_groupSwaps (stop n : ℕ) :
    (shuffleGroups stop n i groupStart groupPriority q).Yields
      (Exchanged q (groupSwaps stop n i groupStart groupPriority q)) := by
  induction n generalizing i groupStart groupPriority q with
  | zero => exact .ok (q.exchanged_orderSwaps groupStart stop)
  | succ n ih =>
    rw [shuffleGroups, groupSwaps]
    refine .branch .error <| .ite (fun hne => ?_) fun heq => ?_
    · rw [if_pos hne]
      exact ih.mono fun q' h => (q.exchanged_orderSwaps groupStart i).append h
    · rw [if_neg heq]
      exact ih

/-- Two songs of the range `[start, stop)` that have the same priority are exchanged. -/
structure EqualSwap (start stop : ℕ) (s : Queue σ × ℕ × ℕ) : Prop where
  first : start ≤ s.2.1 ∧ s.2.1 < stop
  second : start ≤ s.2.2 ∧ s.2.2 < stop
  priority_eq : s.1.orderPriority s.2.1 = s.1.orderPriority s.2.2

theorem EqualSwap.mono {start' stop' : ℕ} {s : Queue σ × ℕ × ℕ} (h : EqualSwap start stop s)
    (h₁ : start' ≤ start) (h₂ : stop ≤ stop') : EqualSwap start' stop' s where
  first := ⟨h₁.trans h.first.1, h.first.2.trans_le h₂⟩
  second := ⟨h₁.trans h.second.1, h.second.2.trans_le h₂⟩
  priority_eq := h.priority_eq

theorem Group.equalSwap (h : Group q stop i groupStart groupPriority) {s : Queue σ × ℕ × ℕ}
    (hs : s ∈ q.orderSwaps groupStart i) : EqualSwap groupStart i s := by
  obtain ⟨k, hk, rfl⟩ := List.mem_map.mp hs
  obtain ⟨h₁, h₂⟩ := List.mem_range'_1.mp hk
  have hlt : k < i := by omega
  have hre : Rearranged groupStart i q.order (q.beforeRound groupStart i k).order := by
    rw [beforeRound_eq]
    exact rearranged_forUp_shuffleStep h₁ hlt.le q.order q.rand
  have hsame : SameSongs q (q.beforeRound groupStart i k) := by
    rw [beforeRound_eq]
    exact sameSongs_withOrder _ _
  have hle := (q.beforeRound groupStart i k).rand.le_pick k i
  have hpick := (q.beforeRound groupStart i k).rand.pick_lt hlt
  refine ⟨⟨h₁, hlt⟩, ⟨h₁.trans hle, hpick⟩, ?_⟩
  rw [h.orderPriority_eq hsame hre, h.orderPriority_eq hsame hre, h.priority_eq _ h₁ hlt,
    h.priority_eq _ (h₁.trans hle) hpick]

theorem Group.equalSwap_of_mem {n : ℕ} (h : Group q stop i groupStart groupPriority)
    (hn : i + n = stop) {s : Queue σ × ℕ × ℕ}
    (hs : s ∈ groupSwaps stop n i groupStart groupPriority q) : EqualSwap groupStart stop s := by
  induction n generalizing i groupStart groupPriority q with
  | zero =>
    obtain rfl : i = stop := by omega
    exact h.equalSwap hs
  | succ n ih =>
    have hlt : i < stop := by omega
    rw [groupSwaps] at hs
    split at hs
    · rcases List.mem_append.mp hs with hmem | hmem
      · exact (h.equalSwap hmem).mono le_rfl hlt.le
      · have hre := rearranged_shuffleOrderRange (q := q) h.lt.le
        have hsame := q.sameSongs_shuffleOrderRange groupStart i
        exact (ih (h.next hlt hsame hre) (by omega) hmem).mono h.lt.le le_rfl
    · exact ih (h.extend hlt (not_not.mp ‹_›)) (by omega) hs

theorem Group.mem_iff (h : Group q stop i groupStart groupPriority)
    (hp : q.orderPriority i < groupPriority) {e : Equiv.Perm ℕ}
    (he : FixesOutside groupStart stop e)
    (hkey : ∀ j, q.orderPriority (e j) = q.orderPriority j) (j : ℕ) :
    (groupStart ≤ j ∧ j < i) ↔ (groupStart ≤ e j ∧ e j < i) := by
  have hgroup : ∀ k, groupStart ≤ k → k < stop →
      (k < i ↔ q.orderPriority k = groupPriority) := by
    intro k h₁ h₂
    refine ⟨h.priority_eq k h₁, fun hk => ?_⟩
    by_contra hge
    have : q.orderPriority k ≤ q.orderPriority i :=
      h.descending i k h.lt.le (not_lt.mp hge) h₂
    omega
  by_cases hj : groupStart ≤ j ∧ j < stop
  · have hmem := he.apply_mem hj.1 hj.2
    have h₁ := hgroup j hj.1 hj.2
    have h₂ := hgroup (e j) hmem.1 hmem.2
    rw [hkey j] at h₂
    tauto
  · rw [he j hj]

theorem exists_shuffleGroups_eq {n : ℕ} (hn : i + n = stop)
    (h : Group q stop i groupStart groupPriority) {e : Equiv.Perm ℕ}
    (he : FixesOutside groupStart stop e)
    (hkey : ∀ j, q.orderPriority (e j) = q.orderPriority j) (r' : Draws) :
    ∃ r, shuffleGroups stop n i groupStart groupPriority (q.withOrder (q.order, r)) =
      .ok (q.withOrder (q.order ∘ e, r')) := by
  induction n generalizing i groupStart groupPriority q e with
  | zero =>
    obtain ⟨r, hr⟩ := exists_fisherYates_eq he q.order r'
    refine ⟨r, ?_⟩
    rw [shuffleGroups, shuffleOrderRange_eq]
    exact congrArg (fun s => Except.ok (q.withOrder s)) hr
  | succ n ih =>
    have hlt : i < stop := by omega
    have hle := h.orderPriority_le hlt
    have hstep : ∀ r, shuffleGroups stop (n + 1) i groupStart groupPriority
        (q.withOrder (q.order, r)) =
        if q.orderPriority i ≠ groupPriority then
          shuffleGroups stop n (i + 1) i (q.orderPriority i)
            (q.withOrder (fisherYates groupStart i q.order r))
        else shuffleGroups stop n (i + 1) groupStart groupPriority (q.withOrder (q.order, r)) := by
      intro r
      rw [shuffleGroups, shuffleOrderRange_eq]
      exact if_neg hle.not_gt
    by_cases hp : q.orderPriority i = groupPriority
    · obtain ⟨r, hr⟩ := ih (by omega) (h.extend hlt hp) he hkey
      exact ⟨r, by rw [hstep, if_neg (not_not.mpr hp), hr]⟩
    · -- the group is shuffled by `e` on it, what is ahead by the rest of `e`
      have hmem := h.mem_iff (lt_of_le_of_ne hle hp) he hkey
      let e₁ : Equiv.Perm ℕ := Equiv.Perm.ofSubtype (e.subtypePerm
        (p := fun j => groupStart ≤ j ∧ j < i) fun j => (hmem j).symm)
      have he₁ : ∀ j, groupStart ≤ j ∧ j < i → e₁ j = e j := fun j hj =>
        Equiv.Perm.ofSubtype_apply_of_mem (p := fun j => groupStart ≤ j ∧ j < i) _ hj
      have hfix₁ : FixesOutside groupStart i e₁ := fun j hj =>
        Equiv.Perm.ofSubtype_apply_of_not_mem _ hj
      have hfix₂ : FixesOutside i stop (e₁⁻¹ * e) := by
        intro j hj
        rw [Equiv.Perm.mul_apply, Equiv.Perm.inv_eq_iff_eq]
        by_cases hg : groupStart ≤ j ∧ j < i
        · rw [he₁ j hg]
        · rw [hfix₁ j hg, he j (by have := h.lt; omega)]
      let q₁ := q.withOrder (q.order ∘ e₁, q.rand)
      have hre : Rearranged groupStart i q.order q₁.order := ⟨e₁, hfix₁, rfl⟩
      have hprio := h.orderPriority_eq (sameSongs_withOrder q _) hre
      have hkey' : ∀ j, q₁.orderPriority ((e₁⁻¹ * e) j) = q₁.orderPriority j := by
        intro j
        rw [hprio j, ← hkey j]
        exact congrArg q.orderPriority (e₁.apply_symm_apply (e j))
      obtain ⟨r₁, hr₁⟩ := ih (by omega) (h.next hlt (sameSongs_withOrder q _) hre) hfix₂ hkey'
      obtain ⟨r, hr⟩ := exists_fisherYates_eq hfix₁ q.order r₁
      refine ⟨r, ?_⟩
      rw [hstep, if_pos hp, hr]
      refine Eq.trans hr₁ (congrArg (fun o => Except.ok (q.withOrder (o, r'))) ?_)
      funext j
      exact congrArg q.order (e₁.apply_symm_apply (e j))

/-! ### The whole shuffle -/

section Whole

variable [Qsort]

section

variable (q : Queue σ)

theorem group_sortOrderByPriority (h : start < stop) :
    Group (q.sortOrderByPriority start stop) stop (start + 1) start
      ((q.sortOrderByPriority start stop).orderPriority start) := by
  refine ⟨Nat.lt_succ_self start, h, descending_sortOrderByPriority q h.le, fun j h₁ h₂ => ?_⟩
  rw [show j = start by omega]

/-- **Soundness.** Shuffling a range rearranges it by non-increasing priority. -/
theorem shuffleOrderRangeWithPriority_succeeds (h : start ≤ stop) :
    (q.shuffleOrderRangeWithPriority start stop).Succeeds fun q' => SameSongs q q' ∧
      Rearranged start stop q.order q'.order ∧ Descending q.priorityAt start stop q'.order := by
  refine .ite (fun heq => ?_) fun hne => ?_
  · exact .ok ⟨.refl, .refl, fun i j h₁ h₂ h₃ => by omega⟩
  · have hlt : start < stop := by omega
    refine (shuffleGroups_succeeds (by omega) (group_sortOrderByPriority q hlt)).mono ?_
    rintro q' ⟨hsame, hre, hprio⟩
    refine ⟨SameSongs.trans (sameSongs_withOrder q (_, q.rand)) hsame,
      (rearranged_sortOrderByPriority q start stop).trans hre, fun i j h₁ h₂ h₃ => ?_⟩
    have hitems : q'.items = q.items := by rw [hsame]; rfl
    have hdesc := descending_sortOrderByPriority q h i j h₁ h₂ h₃
    have hi := hprio i
    have hj := hprio j
    rw [orderPriority, orderPriority, hitems] at hi hj
    rw [priorityAt, priorityAt, hi, hj]
    exact hdesc

theorem shuffleOrder_succeeds : q.shuffleOrder.Succeeds fun q' => SameSongs q q' ∧
      Rearranged 0 q.length q.order q'.order ∧ Descending q.priorityAt 0 q.length q'.order :=
  shuffleOrderRangeWithPriority_succeeds q (Nat.zero_le _)

/-- **Completeness.** Every rearrangement of the range by non-increasing priority is the
outcome for some draws, whatever the generator produces afterwards. -/
theorem exists_shuffleOrderRangeWithPriority_eq (h : start ≤ stop)
    {e : Equiv.Perm ℕ} (he : FixesOutside start stop e)
    (hdesc : Descending q.priorityAt start stop (q.order ∘ e)) (r' : Draws) :
    ∃ r, (q.withOrder (q.order, r)).shuffleOrderRangeWithPriority start stop =
      .ok (q.withOrder (q.order ∘ e, r')) := by
  rcases h.lt_or_eq with hlt | rfl
  · obtain ⟨e₀, he₀, hsort⟩ := rearranged_sortOrderByPriority q start stop
    have hcomp : (q.order ∘ e₀) ∘ (e₀⁻¹ * e) = q.order ∘ e := by
      funext j
      exact congrArg q.order (e₀.apply_symm_apply (e j))
    have hfix : FixesOutside start stop (e₀⁻¹ * e) := he₀.inv.mul he
    have hdesc₀ := descending_sortOrderByPriority q hlt.le
    rw [hsort] at hdesc₀
    have hkey := hdesc₀.key_eq hfix (by rwa [hcomp])
    obtain ⟨r, hr⟩ := exists_shuffleGroups_eq (n := stop - (start + 1)) (by omega)
      (group_sortOrderByPriority q hlt) hfix
      (fun j => by
        show q.priorityAt ((q.sortOrderByPriority start stop).order ((e₀⁻¹ * e) j)) =
          q.priorityAt ((q.sortOrderByPriority start stop).order j)
        rw [hsort]
        exact hkey j) r'
    refine ⟨r, ?_⟩
    rw [shuffleOrderRangeWithPriority, if_neg hlt.ne]
    rw [hsort, hcomp] at hr
    refine Eq.trans ?_ hr
    rw [← hsort]
    rfl
  · have hid : e = Equiv.refl ℕ := Equiv.ext fun j => he j (by omega)
    refine ⟨r', ?_⟩
    rw [shuffleOrderRangeWithPriority, if_pos rfl, hid]
    rfl

/-- **What a shuffle can do.** The queues that the generator can bring about are those with the
range rearranged by non-increasing priority. -/
theorem shuffleOrderRangeWithPriority_outcomes (start n : ℕ) (b : ℕ → ℕ) :
    (∃ r r', (q.withOrder (q.order, r)).shuffleOrderRangeWithPriority start (start + n) =
      .ok (q.withOrder (b, r'))) ↔
    Rearranged start (start + n) q.order b ∧ Descending q.priorityAt start (start + n) b := by
  have hle := Nat.le_add_right start n
  constructor
  · rintro ⟨r, r', hr⟩
    have h := shuffleOrderRangeWithPriority_succeeds (q.withOrder (q.order, r)) hle
    rw [hr, Except.succeeds_ok] at h
    exact h.2
  · rintro ⟨⟨e, he, rfl⟩, hdesc⟩
    obtain ⟨r, hr⟩ := exists_shuffleOrderRangeWithPriority_eq q hle he hdesc q.rand
    exact ⟨r, q.rand, hr⟩

theorem exists_shuffleOrder_eq {e : Equiv.Perm ℕ} (he : FixesOutside 0 q.length e)
    (hdesc : Descending q.priorityAt 0 q.length (q.order ∘ e)) (r' : Draws) :
    ∃ r, (q.withOrder (q.order, r)).shuffleOrder = .ok (q.withOrder (q.order ∘ e, r')) :=
  exists_shuffleOrderRangeWithPriority_eq q (Nat.zero_le _) he hdesc r'

theorem forall_shuffleOrder_iff {P : (ℕ → ℕ) → Prop} :
    (∀ r q', shuffleOrder { q with rand := r } = .ok q' → P q'.order) ↔
      ∀ b, Rearranged 0 q.length q.order b → Descending q.priorityAt 0 q.length b → P b := by
  constructor
  · rintro hall b ⟨e, he, rfl⟩ hd
    obtain ⟨r, hr⟩ := q.exists_shuffleOrder_eq he hd q.rand
    exact hall r _ hr
  · intro hall r q' hq'
    obtain ⟨-, hre, hd⟩ := (shuffleOrder_succeeds { q with rand := r }).yields q' hq'
    exact hall _ hre hd

theorem exists_descending :
    ∃ b, Rearranged 0 q.length q.order b ∧ Descending q.priorityAt 0 q.length b := by
  obtain ⟨q', -, -, hre, hd⟩ := q.shuffleOrder_succeeds
  exact ⟨q'.order, hre, hd⟩

end

end Whole

def prioritySwaps [Qsort] (q : Queue σ) (start stop : ℕ) : List (Queue σ × ℕ × ℕ) :=
  if start = stop then []
  else
    let q := q.sortOrderByPriority start stop
    groupSwaps stop (stop - (start + 1)) (start + 1) start (q.orderPriority start) q

theorem exchanged_prioritySwaps [Qsort] (q : Queue σ) (start stop : ℕ) :
    (q.shuffleOrderRangeWithPriority start stop).Yields
      (Exchanged (q.sortOrderByPriority start stop) (q.prioritySwaps start stop)) := by
  rw [prioritySwaps]
  refine .ite (fun heq => ?_) fun hne => ?_
  · -- there is nothing to sort
    have hnil := (Qsort.perm q.compareOrderPriority []).eq_nil
    rw [if_pos heq, heq, sortOrderByPriority, Nat.sub_self, readList, List.range_zero,
      List.map_nil, hnil]
    exact .ok .nil
  · rw [if_neg hne]
    exact exchanged_groupSwaps _ _

/-- **Shuffling by priority.** The function returns, the range is rearranged by non-increasing
priority and nothing else changes; after the sort, only songs of one priority are exchanged, all of
them inside the range. -/
theorem shuffleOrderRangeWithPriority_equalSwap [Qsort] (q : Queue σ) (h : start ≤ stop)
    (hstop : stop ≤ q.length) :
    ((q.shuffleOrderRangeWithPriority start stop).Succeeds fun q' => (SameSongs q q' ∧
      Rearranged start stop q.order q'.order ∧ Descending q.priorityAt start stop q'.order) ∧
      Exchanged (q.sortOrderByPriority start stop) (q.prioritySwaps start stop) q') ∧
    ∀ s ∈ q.prioritySwaps start stop, EqualSwap start stop s ∧
      s.2.1 < q.length ∧ s.2.2 < q.length := by
  refine ⟨(q.shuffleOrderRangeWithPriority_succeeds h).and_yields
    (q.exchanged_prioritySwaps start stop), fun s hs => ?_⟩
  rw [prioritySwaps] at hs
  split at hs
  · cases hs
  · have hlt : start < stop := by omega
    have hswap := (group_sortOrderByPriority q hlt).equalSwap_of_mem (by omega) hs
    exact ⟨hswap, hswap.first.2.trans_le hstop, hswap.second.2.trans_le hstop⟩

theorem equalSwap_five_songs :
    ((numbered 5 (fun p => p % 2) true id).prioritySwaps 0 5).length = 5 ∧
      ∀ s ∈ (numbered 5 (fun p => p % 2) true id).prioritySwaps 0 5, EqualSwap 0 5 s :=
  ⟨by decide, fun s hs => ((shuffleOrderRangeWithPriority_equalSwap
    (numbered 5 (fun p => p % 2) true id) (by decide) (by decide)).2 s hs).1⟩

end Queue

end Mpd
