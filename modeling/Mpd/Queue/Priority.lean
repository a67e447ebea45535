import Mpd.Queue.Invariant

/-!
# The play queue: changing priorities

`queue_set_priority_range` gives the songs of a range of positions a new priority
(`withPriorities`) and, in random mode, moves each of them into the group of its new priority.
Two facts suffice for everything that follows: the songs and their priorities are as wanted
whatever the order array does (`setPriorityRange_yields`), and in a consistent queue no index
leaves the queue and the order array is rearranged (`Inv.setPriorityRange_succeeds`).
-/

namespace Mpd

open List Nat

open Function (update)
open Arrangement

namespace Queue

variable {σ : Type} {q q' : Queue σ} {p o start stop priority : ℕ} {afterOrder : ℤ}

/-! ### Moving a song in the order array -/

def rangePerm (start stop dst : ℕ) (h : start ≤ stop) : Equiv.Perm ℕ where
  toFun := rangeSource start stop dst
  invFun := rangeTarget start stop dst
  left_inv := rangeTarget_rangeSource h
  right_inv := rangeSource_rangeTarget h

theorem fixesOutside_rangePerm {dst n : ℕ} (h : InRange start stop dst n) :
    FixesOutside 0 n (rangePerm start stop dst h.start_le) := by
  obtain ⟨h₁, h₂, h₃⟩ := h
  refine fun i hi => rangeSource_of_not_mem h₁ ?_
  omega

theorem rangeSource_of_le {src dst i : ℕ} (hle : src ≤ dst) (hi : i ≠ dst) :
    rangeSource src (src + 1) dst i = if src ≤ i ∧ i < dst then i + 1 else i := by
  rw [rangeSource, Nat.add_sub_cancel_left, if_neg (by omega)]
  split_ifs <;> omega

theorem rangeSource_of_ge {src dst i : ℕ} (hle : dst ≤ src) (hi : i ≠ dst) :
    rangeSource src (src + 1) dst i = if dst < i ∧ i ≤ src then i - 1 else i := by
  rw [rangeSource, Nat.add_sub_cancel_left, if_neg (by omega)]
  split_ifs <;> omega

theorem moveOrder_eq (q : Queue σ) {fromOrder toOrder : ℕ} (h : fromOrder < q.length) :
    q.moveOrder fromOrder toOrder =
      .ok (q.withOrder (q.order ∘ rangeSource fromOrder (fromOrder + 1) toOrder, q.rand)) := by
  have hord : update (fun i =>
      if fromOrder ≤ i ∧ i < toOrder then q.order (i + 1)
      else if toOrder < i ∧ i ≤ fromOrder then q.order (i - 1)
      else q.order i) toOrder (q.order fromOrder) =
      q.order ∘ rangeSource fromOrder (fromOrder + 1) toOrder := by
    funext i
    rcases eq_or_ne i toOrder with rfl | hne
    · rw [Function.update_self, Function.comp_apply, rangeSource, if_pos (by omega),
        Nat.add_sub_cancel_left]
    · simp only [Function.update_of_ne hne, Function.comp_apply, rangeSource,
        Nat.add_sub_cancel_left]
      split_ifs <;> first | rfl | omega
  rw [moveOrder, orderToPosition_eq h]
  exact congrArg (fun order => Except.ok { q with order := order }) hord

/-! ### The group of a priority -/

theorem findPriorityOrder_le (q : Queue σ) (start priority exclude : ℕ) :
    q.findPriorityOrder start priority exclude ≤ q.length := by
  rw [findPriorityOrder]
  cases hfind : (range' start (q.length - start)).find? _ with
  | none => exact le_rfl
  | some o =>
    have hmem := mem_range'_1.mp (mem_of_find?_eq_some hfind)
    rw [Option.getD_some]
    omega

theorem countSamePriority_bounds (q : Queue σ) (hlt : start < q.length)
    (hp : q.orderPriority start = priority) :
    0 < q.countSamePriority start priority ∧
      start + q.countSamePriority start priority ≤ q.length := by
  rw [countSamePriority]
  cases hfind : (range' start (q.length - start)).find? _ with
  | none =>
    rw [Option.getD_none]
    omega
  | some o =>
    have hmem := mem_range'_1.mp (mem_of_find?_eq_some hfind)
    have hne : o ≠ start := by
      rintro rfl
      have := find?_some hfind
      rw [hp] at this
      simp at this
    rw [Option.getD_some]
    omega

def regroupTarget (q : Queue σ) (order priority : ℕ) (afterOrder : ℤ) : ℕ :=
  let beforeOrder := q.findPriorityOrder (unsigned (afterOrder + 1)) priority order
  if order < beforeOrder then beforeOrder - 1 else beforeOrder

theorem regroup_eq (q : Queue σ) {order newOrder : ℕ}
    (h : q.regroupTarget order priority afterOrder = newOrder) :
    q.regroup order priority afterOrder = q.moveOrder order newOrder >>= fun q =>
      pure (q.shuffleOrderFirst newOrder (newOrder + q.countSamePriority newOrder priority)) := by
  subst h
  rfl

theorem regroupTarget_lt (q : Queue σ) {order : ℕ} (ho : order < q.length) (priority : ℕ)
    (afterOrder : ℤ) : q.regroupTarget order priority afterOrder < q.length := by
  have hle := q.findPriorityOrder_le (unsigned (afterOrder + 1)) priority order
  rw [regroupTarget]
  split <;> omega

theorem orderPriority_moved (q : Queue σ) (order newOrder : ℕ) :
    (q.withOrder (q.order ∘ rangeSource order (order + 1) newOrder, q.rand)).orderPriority
      newOrder = q.orderPriority order := by
  have hsrc : rangeSource order (order + 1) newOrder newOrder = order := by
    rw [rangeSource, if_pos (by omega), Nat.add_sub_cancel_left]
  exact congrArg (fun o => (q.items (q.order o)).priority) hsrc

theorem regroup_succeeds (q : Queue σ) {order : ℕ} (ho : order < q.length)
    (hp : q.orderPriority order = priority) :
    (q.regroup order priority afterOrder).Succeeds fun q' => SameSongs q q' ∧
      Rearranged 0 q.length q.order q'.order := by
  have hlt := q.regroupTarget_lt ho priority afterOrder
  generalize hnew : q.regroupTarget order priority afterOrder = newOrder at hlt
  rw [regroup_eq q hnew, moveOrder_eq q ho, Except.ok_bind, Except.succeeds_pure]
  set q₁ := q.withOrder (q.order ∘ rangeSource order (order + 1) newOrder, q.rand)
  have hre : Rearranged 0 q.length q.order q₁.order :=
    ⟨_, fixesOutside_rangePerm ⟨le_succ order, ho, by omega⟩, rfl⟩
  obtain ⟨hpos, hbound⟩ := countSamePriority_bounds q₁ hlt
    ((q.orderPriority_moved order newOrder).trans hp)
  have hpick := q₁.rand.pick_lt (show newOrder < newOrder + q₁.countSamePriority newOrder priority
    by omega)
  refine ⟨(sameSongs_withOrder q _).trans (sameSongs_withOrder q₁ (_, q₁.rand.rest)), hre.trans ?_⟩
  exact rearranged_swapAt (zero_le _) hlt (zero_le _) (hpick.trans_le hbound)

theorem regroup_yields (q : Queue σ) (order : ℕ) :
    (q.regroup order priority afterOrder).Yields (SameSongs q) := by
  refine .bind (P := SameSongs q) ?_ fun q₁ hq₁ => ?_
  · exact .after fun _ => .ok rfl
  · exact .ok (hq₁.trans (sameSongs_withOrder q₁ (_, q₁.rand.rest)))

/-! ### One song -/

def withPriorities (q : Queue σ) (start stop priority : ℕ) : Queue σ :=
  { q with
    items := fun p => if (start ≤ p ∧ p < stop) ∧ (q.items p).priority ≠ priority then
        { q.items p with version := q.version, priority := priority }
      else q.items p }

section

variable (q : Queue σ)

theorem withPriorities_self (start priority : ℕ) : q.withPriorities start start priority = q := by
  rw [withPriorities]
  congr 1
  funext p
  exact if_neg (by omega)

theorem withPriorities_trans {mid : ℕ} (h₁ : start ≤ mid) (h₂ : mid ≤ stop)
    (priority : ℕ) : (q.withPriorities start mid priority).withPriorities mid stop priority =
      q.withPriorities start stop priority := by
  simp only [withPriorities]
  congr 1
  funext p
  by_cases hp : (q.items p).priority = priority
  · simp [hp]
  · rcases lt_or_ge p mid with hlt | hge
    · simp [hp, hlt, hlt.trans_le h₂, hlt.not_ge]
    · simp [hp, hge, h₁.trans hge, hge.not_gt]

theorem withPriorities_one (p priority : ℕ) (h : (q.items p).priority ≠ priority) :
    q.withPriorities p (p + 1) priority = { q with
      items := update q.items p
        { q.items p with version := q.version, priority := priority } } := by
  rw [withPriorities]
  congr 1
  funext p'
  rcases eq_or_ne p' p with rfl | hne
  · rw [Function.update_self, if_pos ⟨⟨le_rfl, lt_succ_self _⟩, h⟩]
  · rw [Function.update_of_ne hne, if_neg (by omega)]

theorem withPriorities_one_of_eq (p priority : ℕ)
    (h : (q.items p).priority = priority) : q.withPriorities p (p + 1) priority = q := by
  rw [withPriorities]
  congr 1
  funext p'
  refine if_neg fun hp' => hp'.2 ?_
  rw [show p' = p by omega, h]

theorem withPriorities_withOrder (start stop priority : ℕ)
    (s : (ℕ → ℕ) × Draws) : (q.withOrder s).withPriorities start stop priority =
      (q.withPriorities start stop priority).withOrder s :=
  rfl

theorem withPriorities_id (start stop priority p : ℕ) :
    ((q.withPriorities start stop priority).items p).id = (q.items p).id := by
  rw [withPriorities]
  dsimp only
  split <;> rfl

theorem withPriorities_orderPriority (ho : q.order o = p) (priority : ℕ) :
    (q.withPriorities p (p + 1) priority).orderPriority o = priority := by
  by_cases heq : (q.items p).priority = priority
  · rw [withPriorities_one_of_eq q p priority heq, orderPriority, ho, heq]
  · rw [withPriorities_one q p priority heq, orderPriority]
    dsimp only
    rw [ho, Function.update_self]

end

theorem Inv.withPriorities (h : q.Inv) (start stop priority : ℕ) :
    (q.withPriorities start stop priority).Inv :=
  h.congr rfl rfl rfl (q.withPriorities_id start stop priority) h.order_bijOn h.order_eq

theorem setPriority_eq (hp : p < q.length) (hne : (q.items p).priority ≠ priority) :
    q.setPriority p priority afterOrder =
      let q₁ := q.withPriorities p (p + 1) priority
      if q.random then do
        let order ← q₁.positionToOrder p
        if 0 ≤ afterOrder ∧ (order : ℤ) = afterOrder then pure (q₁, true) else
          let stays ← q₁.staysPlayed order (q.items p).priority priority afterOrder
          if stays then pure (q₁, true) else
            let q ← q₁.regroup order priority afterOrder
            pure (q, true)
      else pure (q₁, true) := by
  rw [withPriorities_one q p priority hne, setPriority]
  simp only [if_neg hp.not_ge, if_neg hne]

theorem setPriority_yields (q : Queue σ) (p priority : ℕ) (afterOrder : ℤ) :
    (q.setPriority p priority afterOrder).Yields fun r =>
      SameSongs (q.withPriorities p (p + 1) priority) r.1 := by
  by_cases hp : p < q.length
  · by_cases heq : (q.items p).priority = priority
    · rw [withPriorities_one_of_eq q p priority heq, setPriority, if_neg hp.not_ge, if_pos heq]
      exact .ok .refl
    · rw [setPriority_eq hp heq]
      refine .branch ?_ <| .ok .refl
      refine .after fun order => ?_
      refine .branch (.ok .refl) ?_
      refine .after fun stays => ?_
      refine .branch (.ok .refl) ?_
      exact (regroup_yields _ order).bind fun q' hq' => .ok hq'
  · rw [setPriority, if_pos (not_lt.mp hp)]
    exact .error

theorem Inv.setPriority_succeeds (h : q.Inv) (hp : p < q.length) (ha : afterOrder < q.length) :
    (q.setPriority p priority afterOrder).Succeeds fun r => r.1.Inv := by
  by_cases heq : (q.items p).priority = priority
  · rw [setPriority, if_neg hp.not_ge, if_pos heq]
    exact .ok h
  · have h₁ := h.withPriorities p (p + 1) priority
    rw [setPriority_eq hp heq]
    refine .ite (fun hrandom => ?_) fun _ => .ok h₁
    refine (h₁.positionToOrder_succeeds hp).bind fun order ho => ?_
    refine .branch (.ok h₁) ?_
    have hstays : ((q.withPriorities p (p + 1) priority).staysPlayed order (q.items p).priority
        priority afterOrder).Succeeds fun _ => True := by
      refine .ite (fun hlt => ?_) fun _ => .ok trivial
      have hn := h.length_lt
      rw [orderToPosition_eq]
      · exact .ok trivial
      · rw [unsigned_eq (by omega) (by omega)]
        show afterOrder.toNat < q.length
        omega
    refine hstays.bind fun stays _ => ?_
    refine .branch (.ok h₁) ?_
    have hprio := q.withPriorities_orderPriority ho.2 priority
    refine (regroup_succeeds _ ho.1 hprio).bind fun q' hq' => .ok ?_
    exact h₁.of_rearranged hrandom hq'.1 hq'.2

/-! ### A range of songs -/

theorem setPriorityFrom_yields (q : Queue σ) (priority : ℕ) (afterPosition : Option ℕ) (n i : ℕ)
    (modified : Bool) : (setPriorityFrom priority afterPosition n i q modified).Yields fun r =>
      SameSongs (q.withPriorities i (i + n) priority) r.1 := by
  induction n generalizing i q modified with
  | zero =>
    rw [setPriorityFrom, add_zero, withPriorities_self]
    exact .ok .refl
  | succ n ih =>
    refine .after fun afterOrder => ?_
    refine (setPriority_yields q i priority afterOrder).bind fun r hr => ?_
    refine (ih r.1 (i + 1) (modified || r.2)).mono fun r' hr' => ?_
    rw [show i + 1 + n = i + (n + 1) by omega] at hr'
    have hr₁ : SameSongs (q.withPriorities i (i + (n + 1)) priority)
        (r.1.withPriorities (i + 1) (i + (n + 1)) priority) := by
      rw [hr, withPriorities_withOrder, withPriorities_trans _ (by omega) (by omega)]
      exact sameSongs_withOrder _ _
    exact hr₁.trans hr'

theorem setPriorityRange_yields (q : Queue σ) (h : start ≤ stop) (priority : ℕ)
    (afterOrder : ℤ) : (q.setPriorityRange start stop priority afterOrder).Yields fun r =>
      SameSongs (q.withPriorities start stop priority) r.1 := by
  refine .after fun afterPosition => ?_
  have := setPriorityFrom_yields q priority afterPosition (stop - start) start false
  rwa [Nat.add_sub_cancel' h] at this

theorem Inv.rememberPosition_succeeds (h : q.Inv) {order : ℤ} (hlt : order < q.length) :
    (q.rememberPosition order).Succeeds fun a => ∀ p ∈ a, p < q.length := by
  refine .ite (fun h₀ => ?_) fun _ => .ok (by simp)
  have hn := h.length_lt
  have hlt : unsigned order < q.length := by
    rw [unsigned_eq h₀ (by omega)]
    omega
  rw [orderToPosition_eq hlt]
  refine .ok fun p hp => ?_
  cases hp
  exact h.order_lt hlt

theorem Inv.rememberedOrder_succeeds (h : q.Inv) {position : Option ℕ}
    (hp : ∀ p ∈ position, p < q.length) :
    (q.rememberedOrder position).Succeeds fun a => a < q.length := by
  cases position with
  | none => exact .ok (by omega)
  | some p =>
    obtain ⟨o, ho, rfl⟩ := h.exists_order (hp p rfl)
    rw [rememberedOrder, h.positionToOrder_order ho]
    exact .ok (Int.ofNat_lt.mpr ho)

theorem Inv.setPriorityFrom_succeeds (h : q.Inv) {afterPosition : Option ℕ}
    (ha : ∀ p ∈ afterPosition, p < q.length) {n i : ℕ} (hi : i + n ≤ q.length)
    (modified : Bool) :
    (setPriorityFrom priority afterPosition n i q modified).Succeeds fun r => r.1.Inv := by
  induction n generalizing i q modified with
  | zero => exact .ok h
  | succ n ih =>
    refine (h.rememberedOrder_succeeds ha).bind fun a ha' => ?_
    refine ((h.setPriority_succeeds (by omega) ha').and_yields
      (setPriority_yields q i priority a)).bind fun r hr => ?_
    have hlen : r.1.length = q.length := by rw [hr.2]; rfl
    exact ih hr.1 (hlen ▸ ha) (by omega) _

/-- **Priorities.** In a consistent queue no index leaves the queue. -/
theorem Inv.setPriorityRange_succeeds (h : q.Inv) (h₁ : start ≤ stop) (h₂ : stop ≤ q.length)
    (ha : afterOrder < q.length) :
    (q.setPriorityRange start stop priority afterOrder).Succeeds fun r => r.1.Inv := by
  refine (h.rememberPosition_succeeds ha).bind fun a ha => ?_
  exact h.setPriorityFrom_succeeds ha (by omega) false

end Queue

end Mpd
