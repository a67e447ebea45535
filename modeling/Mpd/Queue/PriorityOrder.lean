import Mpd.Queue.Priority

/-!
# The play queue: songs in the order of their priorities

In random mode the songs still to come are meant to be played by descending priority.
`q.Ordered o` says so of the songs from order number `o` on. A shuffle of the whole queue
establishes it, and `queue_set_priority_range` keeps it behind the current song: the song that
changes its priority is taken out and put back at the beginning of its new group.

Exchanging two songs without looking at their priorities keeps it only if the song that comes to
the later place fits in there (`q.Fits c o`), and deleting songs keeps it among those that are
left (`q.OrderedWithout D o`).
-/

namespace Mpd

open Equiv

open List Function Arrangement

namespace Queue

variable {σ : Type} {q q' : Queue σ} {a c o p priority : ℕ}

/-- From `o` on, priorities do not increase. -/
def Ordered (q : Queue σ) (o : ℕ) : Prop :=
  ∀ j < q.length, ∀ i ≤ j, o ≤ i → q.orderPriority j ≤ q.orderPriority i

instance (q : Queue σ) (o : ℕ) : Decidable (q.Ordered o) :=
  inferInstanceAs (Decidable (∀ j < _, ∀ i ≤ j, _ → _))

theorem Ordered.mono {o' : ℕ} (h : q.Ordered o) (hle : o ≤ o') : q.Ordered o' :=
  fun j hj i hij hi => h j hj i hij (hle.trans hi)

theorem Ordered.congr (h : q.Ordered o) (hlen : q'.length = q.length)
    (hp : ∀ i < q.length, o ≤ i → q'.orderPriority i = q.orderPriority i) : q'.Ordered o := by
  intro j hj i hij hi
  rw [hlen] at hj
  rw [hp j hj (hi.trans hij), hp i (hij.trans_lt hj) hi]
  exact h j hj i hij hi

theorem ordered_of_place {t : ℕ} (hothers : ∀ j < q.length, ∀ i ≤ j, o ≤ i → i ≠ t → j ≠ t →
      q.orderPriority j ≤ q.orderPriority i)
    (hbefore : ∀ i < t, o ≤ i → q.orderPriority t ≤ q.orderPriority i)
    (hafter : ∀ j < q.length, t < j → o ≤ t → q.orderPriority j ≤ q.orderPriority t) :
    q.Ordered o := by
  intro j hj i hij hi
  rcases eq_or_ne i t with rfl | hit
  · rcases hij.eq_or_lt with rfl | hlt
    · exact le_rfl
    · exact hafter j hj hlt hi
  · rcases eq_or_ne j t with rfl | hjt
    · exact hbefore i (lt_of_le_of_ne hij hit) hi
    · exact hothers j hj i hij hi hit hjt

theorem shuffleOrder_ordered [Qsort] (q : Queue σ) :
    q.shuffleOrder.Yields fun q' => q'.Ordered 0 := by
  refine q.shuffleOrder_succeeds.yields.mono fun q' ⟨hsongs, _, hdesc⟩ => ?_
  rw [hsongs]
  exact fun j hj i hij hi => hdesc i j hi hij hj

/-! ### Exchanging two songs -/

theorem swapOrder_orderPriority (q : Queue σ) (o₁ o₂ i : ℕ) :
    (q.swapOrder o₁ o₂).orderPriority i = q.orderPriority (Equiv.swap o₁ o₂ i) := by
  rw [orderPriority, orderPriority, swapOrder, swapAt_eq_comp]
  rfl

def Fits (q : Queue σ) (c o : ℕ) : Prop :=
  (∀ j < q.length, ∀ i ≤ j, c < i ∧ i ≠ o ∧ j ≠ o → q.orderPriority j ≤ q.orderPriority i) ∧
  (c < o → (∀ i < o, c < i → q.orderPriority c ≤ q.orderPriority i) ∧
    ∀ j < q.length, o < j → q.orderPriority j ≤ q.orderPriority c)

instance (q : Queue σ) (c o : ℕ) : Decidable (q.Fits c o) :=
  inferInstanceAs (Decidable ((∀ j < _, ∀ i ≤ j, _ → _) ∧ (_ → (∀ i < _, _ → _) ∧ ∀ j < _, _ → _)))

theorem Fits.swapOrder (h : q.Fits c o) : (q.swapOrder o c).Ordered (c + 1) := by
  have hfix : ∀ i, c < i → i ≠ o → (q.swapOrder o c).orderPriority i = q.orderPriority i := by
    intro i hi hio
    rw [swapOrder_orderPriority, swap_apply_of_ne_of_ne hio (by omega)]
  have ho : (q.swapOrder o c).orderPriority o = q.orderPriority c := by
    rw [swapOrder_orderPriority, swap_apply_left]
  refine ordered_of_place (t := o) (fun j hj i hij hi hio hjo => ?_) (fun i hio hi => ?_)
    fun j hj hoj hco => ?_
  · rw [hfix j (by omega) hjo, hfix i hi hio]
    exact h.1 j hj i hij ⟨hi, hio, hjo⟩
  · rw [ho, hfix i hi hio.ne]
    exact (h.2 (by omega)).1 i hio hi
  · rw [ho, hfix j (by omega) hoj.ne']
    exact (h.2 hco).2 j hj hoj

def Leads (q : Queue σ) (p : ℕ) : Prop :=
  (∀ x < q.length, q.priorityAt x ≤ q.priorityAt p) ∨
  (∀ x < q.length, q.priorityAt p < q.priorityAt x →
    ∀ y < q.length, q.priorityAt p < q.priorityAt y → q.priorityAt x = q.priorityAt y) ∧
  ∀ x < q.length, q.priorityAt x = q.priorityAt p → x = p

instance (q : Queue σ) (p : ℕ) : Decidable (q.Leads p) :=
  inferInstanceAs (Decidable ((∀ x < _, _) ∨ (∀ x < _, _ → ∀ y < _, _ → _) ∧ ∀ x < _, _ → _))

theorem Leads.fits (h : q.Leads (q.order o)) (hq : q.Inv) (hord : q.Ordered 0)
    (ho : o < q.length) : q.Fits 0 o := by
  refine ⟨fun j hj i hij _ => hord j hj i hij (Nat.zero_le _), fun h0 => ⟨fun i hio _ => ?_,
    fun j hj _ => hord j hj 0 (Nat.zero_le _) le_rfl⟩⟩
  have hn : 0 < q.length := by omega
  have hi : q.orderPriority o ≤ q.orderPriority i := hord o ho i hio.le (Nat.zero_le _)
  have h0i : q.orderPriority i ≤ q.orderPriority 0 :=
    hord i (hio.trans ho) 0 (Nat.zero_le _) le_rfl
  rcases h with htop | ⟨hsecond, honly⟩
  · exact (htop _ (hq.order_lt hn)).trans hi
  · have hne : q.orderPriority i ≠ q.orderPriority o := fun heq =>
      hio.ne (hq.order_inj (hio.trans ho) ho (honly _ (hq.order_lt (hio.trans ho)) heq))
    have hlt : q.orderPriority o < q.orderPriority i := lt_of_le_of_ne hi hne.symm
    exact (hsecond _ (hq.order_lt hn) (hlt.trans_le h0i) _ (hq.order_lt (hio.trans ho)) hlt).le

/-! ### Adding a song -/

theorem Inv.appended_orderPriority (h : q.Inv) (song : σ) (priority id : ℕ) {i : ℕ}
    (hi : i < q.length) :
    (q.appended song priority id).orderPriority i = q.orderPriority i := by
  rw [orderPriority, Queue.appended]
  dsimp only
  rw [update_of_ne hi.ne, update_of_ne (h.order_lt hi).ne]
  rfl

theorem appended_orderPriority_length (q : Queue σ) (song : σ) (priority id : ℕ) :
    (q.appended song priority id).orderPriority q.length = priority := by
  rw [orderPriority, Queue.appended]
  dsimp only
  rw [update_self, update_self]

theorem Ordered.shuffleOrderLast {start : ℕ} (h : q.Ordered o) (hlt : start < q.length)
    (hlast : q.orderPriority (q.length - 1) = 0)
    (hzero : ∀ i < q.length, start ≤ i → q.orderPriority i = 0) :
    (q.shuffleOrderLast start q.length).Ordered o := by
  refine h.congr rfl fun i hi _ => ?_
  have hpick := q.rand.pick_lt hlt
  have hle := q.rand.le_pick start q.length
  show (q.drawn.swapOrder _ _).orderPriority i = _
  rw [swapOrder_orderPriority]
  show q.orderPriority (Equiv.swap (q.length - 1) (q.rand.pick start q.length) i) = _
  rw [swap_apply_def]
  split_ifs with h₁ h₂
  · rw [h₁, hlast, hzero _ hpick hle]
  · rw [h₂, hlast, hzero _ hpick hle]
  · rfl

/-! ### Changing a priority -/

theorem findPriorityOrder_spec (q : Queue σ) (start priority exclude : ℕ) :
    (∀ i, start ≤ i → i < q.findPriorityOrder start priority exclude → i ≠ exclude →
      priority < q.orderPriority i) ∧
    (q.findPriorityOrder start priority exclude < q.length →
      start ≤ q.findPriorityOrder start priority exclude ∧
      q.findPriorityOrder start priority exclude ≠ exclude ∧
      q.orderPriority (q.findPriorityOrder start priority exclude) ≤ priority) := by
  rw [findPriorityOrder]
  cases hfind : (range' start (q.length - start)).find? _ with
  | none =>
    rw [find?_range'_eq_none] at hfind
    rw [Option.getD_none]
    refine ⟨fun i h₁ h₂ h₃ => ?_, fun h => absurd h (lt_irrefl _)⟩
    simpa [h₃] using hfind i h₁ (by omega)
  | some b =>
    rw [find?_range'_eq_some] at hfind
    obtain ⟨hb, hmem, hmin⟩ := hfind
    simp only [Bool.and_eq_true, decide_eq_true_eq, bne_iff_ne] at hb
    refine ⟨fun i h₁ h₂ h₃ => ?_, fun _ => ⟨(mem_range'_1.mp hmem).1, hb.2, hb.1⟩⟩
    simpa [h₃] using hmin i h₁ h₂

theorem orderPriority_of_lt_countSamePriority (q : Queue σ) {start i : ℕ} (h₁ : start ≤ i)
    (h₂ : i < start + q.countSamePriority start priority) : q.orderPriority i = priority := by
  rw [countSamePriority] at h₂
  cases hfind : (range' start (q.length - start)).find? _ with
  | none =>
    rw [hfind, Option.getD_none] at h₂
    rw [find?_range'_eq_none] at hfind
    simpa using hfind i h₁ (by omega)
  | some b =>
    rw [hfind, Option.getD_some] at h₂
    rw [find?_range'_eq_some] at hfind
    simpa using hfind.2.2 i h₁ (by omega)

theorem Ordered.shuffleOrderFirst {start : ℕ} (h : q.Ordered o) (hlt : start < q.length)
    (hp : q.orderPriority start = priority) :
    (q.shuffleOrderFirst start (start + q.countSamePriority start priority)).Ordered o := by
  obtain ⟨hpos, -⟩ := q.countSamePriority_bounds hlt hp
  have hpick := q.rand.pick_lt (show start < start + q.countSamePriority start priority by omega)
  have hle := q.rand.le_pick start (start + q.countSamePriority start priority)
  have hsame := q.orderPriority_of_lt_countSamePriority hle hpick
  refine h.congr rfl fun i _ _ => ?_
  show (q.drawn.swapOrder _ _).orderPriority i = _
  rw [swapOrder_orderPriority]
  show q.orderPriority (Equiv.swap start (q.rand.pick start _) i) = _
  rw [swap_apply_def]
  split_ifs with h₁ h₂
  · rw [h₁, hsame, hp]
  · rw [h₂, hsame, hp]
  · rfl

private theorem rangeSource_before {b s i n : ℕ} (hsb : s ≤ b) (hbn : b ≤ n)
    (ho : o < n) (hi : i < n) (hsi : (if o < s then s - 1 else s) ≤ i)
    (hit : i ≠ if o < b then b - 1 else b) :
    let t := if o < b then b - 1 else b
    s ≤ rangeSource o (o + 1) t i ∧ rangeSource o (o + 1) t i < n ∧
      rangeSource o (o + 1) t i ≠ o ∧ (rangeSource o (o + 1) t i < b ↔ i < t) := by
  dsimp only
  have hsi : s ≤ i + 1 ∧ (s ≤ o → s ≤ i) := by split at hsi <;> omega
  split at hit
  · rw [if_pos ‹_›, rangeSource_of_le (by omega) hit]
    split <;> omega
  · rw [if_neg ‹_›, rangeSource_of_ge (by omega) hit]
    split <;> omega

private theorem rangeSource_mono {t i j : ℕ} (hij : i ≤ j) (hit : i ≠ t) (hjt : j ≠ t) :
    rangeSource o (o + 1) t i ≤ rangeSource o (o + 1) t j := by
  rcases le_total o t with hle | hle
  · rw [rangeSource_of_le hle hit, rangeSource_of_le hle hjt]
    split_ifs <;> omega
  · rw [rangeSource_of_ge hle hit, rangeSource_of_ge hle hjt]
    split_ifs <;> omega

theorem ordered_moveOrder {s t b : ℕ} (ho : o < q.length) (hp : q.orderPriority o = priority)
    (hothers : ∀ j < q.length, ∀ i ≤ j, s ≤ i → i ≠ o → j ≠ o →
      q.orderPriority j ≤ q.orderPriority i)
    (hb : b = q.findPriorityOrder s priority o) (hsb : s ≤ b)
    (ht : t = if o < b then b - 1 else b) (htn : t < q.length) :
    (q.withOrder (q.order ∘ rangeSource o (o + 1) t, q.rand)).Ordered
      (if o < s then s - 1 else s) := by
  obtain ⟨hbefore, hfound⟩ := q.findPriorityOrder_spec s priority o
  have hble := q.findPriorityOrder_le s priority o
  rw [← hb] at hbefore hfound hble
  -- the songs from `b` on have at most the new priority
  have hafter : ∀ i < q.length, b ≤ i → i ≠ o → q.orderPriority i ≤ priority := by
    intro i hi hbi hio
    obtain ⟨-, hbo, hle⟩ := hfound (by omega)
    exact (hothers i hi b hbi hsb hbo hio).trans hle
  have hsrc : ∀ i, (q.withOrder (q.order ∘ rangeSource o (o + 1) t, q.rand)).orderPriority i =
      q.orderPriority (rangeSource o (o + 1) t i) := fun i => rfl
  have hself := (q.orderPriority_moved o t).trans hp
  have hsource : ∀ i < q.length, (if o < s then s - 1 else s) ≤ i → i ≠ t →
      s ≤ rangeSource o (o + 1) t i ∧ rangeSource o (o + 1) t i < q.length ∧
        rangeSource o (o + 1) t i ≠ o ∧ (rangeSource o (o + 1) t i < b ↔ i < t) := by
    subst ht
    exact fun i hi hsi hit => rangeSource_before hsb hble ho hi hsi hit
  refine ordered_of_place (t := t) (fun j hj i hij hi hit hjt => ?_) (fun i hit hi => ?_)
    fun j hj htj hst => ?_
  · obtain ⟨h₁, -, h₂, -⟩ := hsource i (hij.trans_lt hj) hi hit
    obtain ⟨-, h₃, h₄, -⟩ := hsource j hj (hi.trans hij) hjt
    exact hothers _ h₃ _ (rangeSource_mono hij hit hjt) h₁ h₂ h₄
  · obtain ⟨h₁, -, h₂, h₃⟩ := hsource i (hit.trans htn) hi hit.ne
    rw [hself, hsrc]
    exact (hbefore _ h₁ (h₃.mpr hit) h₂).le
  · obtain ⟨-, h₁, h₂, h₃⟩ := hsource j hj (hst.trans htj.le) htj.ne'
    rw [hself, hsrc]
    exact hafter _ h₁ (not_lt.mp fun h => absurd (h₃.mp h) (by omega)) h₂

theorem regroup_ordered {s : ℕ} (hn : q.length < 4294967295) (hs : s ≤ q.length)
    (ho : o < q.length) (hp : q.orderPriority o = priority)
    (hothers : ∀ j < q.length, ∀ i ≤ j, s ≤ i → i ≠ o → j ≠ o →
      q.orderPriority j ≤ q.orderPriority i) :
    (q.regroup o priority (s - 1)).Yields fun q' => q'.length = q.length ∧
      q'.Ordered (if o < s then s - 1 else s) ∧
      ∀ i < s, i ≠ o → q'.order (if o < i then i - 1 else i) = q.order i := by
  have hcast : unsigned ((s : ℤ) - 1 + 1) = s := by
    rw [sub_add_cancel, unsigned_natCast (by omega)]
  obtain ⟨b, hb⟩ : ∃ b, b = q.findPriorityOrder s priority o := ⟨_, rfl⟩
  obtain ⟨t, ht⟩ : ∃ t, t = if o < b then b - 1 else b := ⟨_, rfl⟩
  have hnew : q.regroupTarget o priority (s - 1) = t := by
    rw [regroupTarget, hcast, ← hb, ht]
  have htn := hnew ▸ q.regroupTarget_lt ho priority (s - 1)
  have hfound := (q.findPriorityOrder_spec s priority o).2
  have hble := q.findPriorityOrder_le s priority o
  rw [← hb] at hfound hble
  have hsb : s ≤ b := by
    rcases hble.lt_or_eq with hlt | heq
    · exact (hfound hlt).1
    · omega
  have hord := ordered_moveOrder ho hp hothers hb hsb ht htn
  rw [regroup_eq q hnew, moveOrder_eq q ho, Except.ok_bind]
  set q₁ := q.withOrder (q.order ∘ rangeSource o (o + 1) t, q.rand)
  refine .ok ⟨rfl,
    hord.shuffleOrderFirst htn ((q.orderPriority_moved o t).trans hp), fun i hi hio => ?_⟩
  -- the songs that change places are not before `t`
  have hle := q₁.rand.le_pick t (t + q₁.countSamePriority t priority)
  have hlt : (if o < i then i - 1 else i) < t := by split at ht <;> split <;> omega
  show swapAt q₁.order t (q₁.rand.pick t _) _ = _
  rw [swapAt_eq_comp, comp_apply, swap_apply_of_ne_of_ne hlt.ne (hlt.trans_le hle).ne]
  refine congrArg q.order ?_
  rcases le_total o t with hot | hot
  · rw [rangeSource_of_le hot hlt.ne]
    split_ifs at hlt ⊢ <;> omega
  · rw [rangeSource_of_ge hot hlt.ne]
    split_ifs at hlt ⊢ <;> omega

def Behind (q : Queue σ) (s : ℕ) : Option ℕ → Prop
  | some p => ∃ a < q.length, q.order a = p ∧ s = a + 1
  | none => s = 0

def OrderedBehind (q : Queue σ) (d : Option ℕ) : Prop :=
  ∃ s, q.Behind s d ∧ q.Ordered s

theorem Behind.le {s : ℕ} {d : Option ℕ} (h : q.Behind s d) : s ≤ q.length := by
  cases d with
  | none =>
    obtain rfl : s = 0 := h
    exact Nat.zero_le _
  | some p =>
    obtain ⟨a, ha, -, rfl⟩ := h
    exact ha

variable (priority) in
theorem withPriorities_orderPriority_of_ne (h : q.Inv) {i : ℕ} (hi : i < q.length)
    (ho : o < q.length) (hio : i ≠ o) :
    (q.withPriorities (q.order o) (q.order o + 1) priority).orderPriority i =
      q.orderPriority i := by
  have hne : q.order i ≠ q.order o := fun heq => hio (h.order_inj hi ho heq)
  have : ¬ (q.order o ≤ q.order i ∧ q.order i < q.order o + 1) := by omega
  simp only [orderPriority, withPriorities, this, false_and, if_false]

/-- **One priority.** The songs behind the current one stay in order. -/
theorem Inv.setPriority_ordered (h : q.Inv) (hrandom : q.random = true) (hp : p < q.length) {s : ℕ}
    {d : Option ℕ} (hs : q.Behind s d) (hord : q.Ordered s) :
    (q.setPriority p priority (s - 1)).Yields fun r => r.1.OrderedBehind d := by
  obtain ⟨o, ho, rfl⟩ := h.exists_order hp
  by_cases heq : (q.items (q.order o)).priority = priority
  · rw [Queue.setPriority, if_neg hp.not_ge, if_pos heq]
    exact .ok ⟨s, hs, hord⟩
  have hpos : (q.withPriorities (q.order o) (q.order o + 1) priority).positionToOrder (q.order o) =
      .ok o := (h.withPriorities _ _ priority).positionToOrder_order ho
  rw [setPriority_eq hp heq]
  simp only [hrandom, if_true, hpos, Except.ok_bind]
  have hprio := fun i hi hio =>
    withPriorities_orderPriority_of_ne priority h (i := i) hi ho hio
  have hbehind : (q.withPriorities (q.order o) (q.order o + 1) priority).Behind s d := by
    cases d <;> exact hs
  set q₁ := q.withPriorities (q.order o) (q.order o + 1) priority
  -- a song that has been played, or is being played, does not matter to those behind
  have hplayed : o < s → q₁.OrderedBehind d := fun hlt =>
    ⟨s, hbehind, hord.congr rfl fun i hi hsi => hprio i hi (by omega)⟩
  refine .ite (fun hos => .ok (hplayed (by omega))) fun hos => ?_
  have hstays : (q₁.staysPlayed o (q.items (q.order o)).priority priority (s - 1)).Yields
      fun stays => stays = true → o < s := by
    refine .ite (fun hlt => ?_) fun _ => .ok (by simp)
    exact Except.yields_true.mono fun _ _ _ => by omega
  refine hstays.bind fun stays hstays => ?_
  refine .ite (fun hs => .ok (hplayed (hstays hs))) fun _ => ?_
  have hn := h.length_lt
  refine (regroup_ordered (q := q₁) (by show q.length < _; omega) hbehind.le ho ?_ ?_).bind
    fun q' hq' => .ok ?_
  · exact q.withPriorities_orderPriority rfl priority
  · intro j hj i hij hsi hio hjo
    rw [hprio j hj hjo, hprio i (hij.trans_lt hj) hio]
    exact hord j hj i hij hsi
  · obtain ⟨hlen, hord', hkept⟩ := hq'
    refine ⟨_, ?_, hord'⟩
    cases d with
    | none =>
      obtain rfl : s = 0 := hs
      exact if_neg (Nat.not_lt_zero o)
    | some p =>
      -- the song comes one place forward, if the other one leaves its place before it
      obtain ⟨a, ha, rfl, rfl⟩ := hs
      have hoa : a ≠ o := by omega
      refine ⟨_, ?_, hkept a (Nat.lt_succ_self a) hoa, ?_⟩
      · rw [hlen]
        show _ < q.length
        split <;> omega
      · split <;> split <;> omega

theorem Inv.rememberedOrder_eq (h : q.Inv) {s : ℕ} {d : Option ℕ} (hs : q.Behind s d) :
    q.rememberedOrder d = .ok ((s : ℤ) - 1) := by
  cases d with
  | none =>
    obtain rfl : s = 0 := hs
    rfl
  | some p =>
    obtain ⟨a, ha, rfl, rfl⟩ := hs
    rw [rememberedOrder, h.positionToOrder_order ha]
    exact congrArg Except.ok (show (a : ℤ) = _ by omega)

theorem Inv.setPriorityFrom_ordered (h : q.Inv) (hrandom : q.random = true) {d : Option ℕ}
    {n i : ℕ} (hi : i + n ≤ q.length) (hd : q.OrderedBehind d) (modified : Bool) :
    (setPriorityFrom priority d n i q modified).Yields fun r => r.1.OrderedBehind d := by
  induction n generalizing i q modified with
  | zero => exact .ok hd
  | succ n ih =>
    obtain ⟨s, hs, hord⟩ := hd
    have hle := hs.le
    rw [setPriorityFrom, h.rememberedOrder_eq hs]
    have hstep := ((h.setPriority_succeeds (by omega)
      (by omega)).and_yields (setPriority_yields q i priority (s - 1))).yields
    refine (hstep.and (h.setPriority_ordered hrandom (by omega) hs hord)).bind ?_
    rintro r ⟨⟨hinv, hsame⟩, hbehind⟩
    have hlen : r.1.length = q.length := by rw [hsame]; rfl
    refine ih hinv ?_ (by omega) hbehind _
    rw [hsame]
    exact hrandom

theorem Inv.rememberPosition_eq (h : q.Inv) {s : ℕ} {d : Option ℕ} (hs : q.Behind s d) :
    q.rememberPosition (s - 1) = .ok d := by
  have hn := h.length_lt
  cases d with
  | none =>
    obtain rfl : s = 0 := hs
    rfl
  | some p =>
    obtain ⟨a, ha, rfl, rfl⟩ := hs
    have hcast : ((a + 1 : ℕ) : ℤ) - 1 = a := by omega
    rw [hcast, rememberPosition, if_pos (Int.natCast_nonneg a), unsigned_natCast (by omega),
      orderToPosition_eq ha]
    rfl

variable (priority) in
/-- **Priorities of a range.** -/
theorem Inv.setPriorityRange_ordered (h : q.Inv) (hrandom : q.random = true) {start stop s : ℕ}
    (h₁ : start ≤ stop) (h₂ : stop ≤ q.length) {d : Option ℕ} (hs : q.Behind s d)
    (hord : q.Ordered s) :
    (q.setPriorityRange start stop priority (s - 1)).Yields fun r => r.1.OrderedBehind d := by
  rw [setPriorityRange, h.rememberPosition_eq hs]
  exact h.setPriorityFrom_ordered hrandom (by omega) ⟨s, hs, hord⟩ false

/-- The song's new place is within the order, and its priority is found there. -/
def RegroupsInside (q : Queue σ) (p priority : ℕ) (afterOrder : ℤ) : Prop :=
  let q₁ := q.withPriorities p (p + 1) priority
  (q₁.positionToOrder p).Succeeds fun order =>
    let newOrder := q₁.regroupTarget order priority afterOrder
    newOrder < q₁.length ∧ (q₁.moveOrder order newOrder).Succeeds fun q₂ =>
      1 ≤ q₂.countSamePriority newOrder priority

theorem Inv.regroupsInside (h : q.Inv) (hp : p < q.length) (priority : ℕ) (afterOrder : ℤ) :
    q.RegroupsInside p priority afterOrder := by
  refine ((h.withPriorities p (p + 1) priority).positionToOrder_succeeds hp).mono fun order ho => ?_
  have hprio := q.withPriorities_orderPriority ho.2 priority
  set q₁ := q.withPriorities p (p + 1) priority
  have hlt := q₁.regroupTarget_lt ho.1 priority afterOrder
  refine ⟨hlt, ?_⟩
  rw [moveOrder_eq q₁ ho.1]
  refine .ok ((countSamePriority_bounds (q₁.withOrder _) ?_ ?_).1)
  · exact hlt
  · exact (q₁.orderPriority_moved order _).trans hprio

/-- What a change of priorities behind order number `a` leaves: a permutation that is in order
behind the new order number of the same song, or from the start if `a` is `-1`. -/
structure Resorted (q : Queue σ) (a : ℤ) (q' : Queue σ) : Prop where
  length_eq : q'.length = q.length
  order_bijOn : Set.BijOn q'.order (Set.Iio q'.length) (Set.Iio q'.length)
  ordered : ∃ a' : ℤ, q'.Ordered (a' + 1).toNat ∧ (a = -1 ∧ a' = -1 ∨
    0 ≤ a ∧ 0 ≤ a' ∧ a' < q'.length ∧
      (q'.items (q'.order a'.toNat)).id = (q.items (q.order a.toNat)).id)

theorem Inv.resorted {s start stop : ℕ} {d : Option ℕ} (h : q'.Inv)
    (hsame : SameSongs (q.withPriorities start stop priority) q') (hs : q.Behind s d)
    (hord : q'.OrderedBehind d) : q.Resorted (s - 1) q' := by
  have hid : ∀ p, (q'.items p).id = (q.items p).id := by
    rw [hsame]
    exact q.withPriorities_id start stop priority
  refine ⟨by rw [hsame]; rfl, h.order_bijOn, ?_⟩
  obtain ⟨s', hs', hord⟩ := hord
  refine ⟨(s' : ℤ) - 1, by rwa [sub_add_cancel, Int.toNat_natCast], ?_⟩
  cases d with
  | none =>
    obtain rfl : s = 0 := hs
    obtain rfl : s' = 0 := hs'
    exact .inl ⟨rfl, rfl⟩
  | some p =>
    obtain ⟨a, -, ha, rfl⟩ := hs
    obtain ⟨a', hlt, ha', rfl⟩ := hs'
    refine .inr ⟨by omega, by omega, by omega, ?_⟩
    rw [show (((a' + 1 : ℕ) : ℤ) - 1).toNat = a' by omega,
      show (((a + 1 : ℕ) : ℤ) - 1).toNat = a by omega, ha, ha', hid]

theorem exists_behind (q : Queue σ) {s : ℕ} (hs : s ≤ q.length) : ∃ d, q.Behind s d := by
  cases s with
  | zero => exact ⟨none, rfl⟩
  | succ a => exact ⟨some (q.order a), a, hs, rfl, rfl⟩

/-- **Changing priorities in random mode.** If the songs behind the one with order number `a` are
in order, `queue_set_priority` and `queue_set_priority_range` keep them in order, and every move
that they make in the order array stays inside it. -/
theorem Inv.setPriority_resorted (h : q.Inv) (hrandom : q.random = true) {a : ℤ} (ha : -1 ≤ a)
    (hlt : a < q.length) (hord : q.Ordered (a + 1).toNat) (priority : ℕ) :
    (∀ p < q.length, q.RegroupsInside p priority a ∧
      (q.setPriority p priority a).Succeeds fun r => q.Resorted a r.1) ∧
    ∀ start stop, start ≤ stop → stop ≤ q.length →
      ((q.setPriorityRange start stop priority a).Succeeds fun r => q.Resorted a r.1) ∧
      (q.rememberPosition a).Succeeds fun d => ∀ n < stop - start,
        -- the round for position `start + n`
        (setPriorityFrom priority d n start q false).Succeeds fun r =>
          (r.1.rememberedOrder d).Succeeds fun a' =>
            r.1.RegroupsInside (start + n) priority a' := by
  obtain ⟨s, hs⟩ := Int.eq_ofNat_of_zero_le (show 0 ≤ a + 1 by omega)
  obtain rfl : a = (s : ℤ) - 1 := by omega
  obtain ⟨d, hd⟩ := q.exists_behind (show s ≤ q.length by omega)
  rw [sub_add_cancel, Int.toNat_natCast] at hord
  refine ⟨fun p hp => ⟨h.regroupsInside hp priority _, ?_⟩, fun start stop h₁ h₂ => ⟨?_, ?_⟩⟩
  · refine ((h.setPriority_succeeds hp hlt).and_yields ((setPriority_yields q p priority _).and
      (h.setPriority_ordered hrandom hp hd hord))).mono ?_
    rintro r ⟨hinv, hsame, hbehind⟩
    exact hinv.resorted hsame hd hbehind
  · refine ((h.setPriorityRange_succeeds h₁ h₂ hlt).and_yields
      ((setPriorityRange_yields q h₁ priority _).and
        (h.setPriorityRange_ordered priority hrandom h₁ h₂ hd hord))).mono ?_
    rintro r ⟨hinv, hsame, hbehind⟩
    exact hinv.resorted hsame hd hbehind
  · refine (h.rememberPosition_succeeds hlt).mono fun d hd n hn => ?_
    refine ((h.setPriorityFrom_succeeds hd (by omega) false).and_yields
      (setPriorityFrom_yields q priority d n start false)).mono fun r hr => ?_
    have hlen : r.1.length = q.length := by rw [hr.2]; rfl
    refine (hr.1.rememberedOrder_succeeds (hlen ▸ hd)).mono fun a' _ => ?_
    exact hr.1.regroupsInside (by omega) priority a'

theorem resorted_five_songs :
    ((numbered 5 (fun p => 9 - p) true id).setPriority 4 20 1).Succeeds fun r =>
      (numbered 5 (fun p => 9 - p) true id).Resorted 1 r.1 :=
  (((inv_numbered (by decide) (fun p => 9 - p) true id).setPriority_resorted rfl (by decide)
    (by decide) (by decide) 20).1 4 (by decide)).2

/-! ### Deleting songs -/

def OrderedWithout (q : Queue σ) (D : ℕ → Prop) (o : ℕ) : Prop :=
  ∀ j < q.length, ∀ i ≤ j, ∀ h < i, o ≤ h ∧ ¬ D (q.order h) ∧ ¬ D (q.order i) ∧ ¬ D (q.order j) →
      q.orderPriority j ≤ q.orderPriority i

instance (q : Queue σ) (D : ℕ → Prop) [DecidablePred D] (o : ℕ) :
    Decidable (q.OrderedWithout D o) :=
  haveI : ∀ i j, Decidable (∀ h < i, o ≤ h ∧ ¬ D (q.order h) ∧ ¬ D (q.order i) ∧
      ¬ D (q.order j) → q.orderPriority j ≤ q.orderPriority i) := fun _ _ => inferInstance
  inferInstanceAs (Decidable (∀ j < _, ∀ i ≤ j, _))

variable {D : ℕ → Prop}

theorem Ordered.without (h : q.Ordered (o + 1)) (D : ℕ → Prop) : q.OrderedWithout D o :=
  fun j hj i hij k hki hk => h j hj i hij (by omega)

theorem OrderedWithout.ordered (h : q.OrderedWithout D o) (hD : ∀ p, ¬ D p) : q.Ordered (o + 1) :=
  fun j hj i hij hi => h j hj i hij o hi ⟨le_rfl, hD _, hD _, hD _⟩

theorem OrderedWithout.mono {o' : ℕ} (h : q.OrderedWithout D o) (hle : o ≤ o') :
    q.OrderedWithout D o' :=
  fun j hj i hij k hki hk => h j hj i hij k hki ⟨hle.trans hk.1, hk.2⟩

theorem Inv.deleted_orderPriority (h : q.Inv) {x : ℕ} (hx : x < q.length) (ho : o < q.length)
    (hxo : x ≠ o) :
    (q.deleted (q.order o) o).orderPriority (deleteTarget o x) = q.orderPriority x := by
  have hne : q.order x ≠ q.order o := fun heq => hxo (h.order_inj hx ho heq)
  rw [orderPriority, deleted_order_deleteTarget q hx ho hxo]
  exact (QueueItem.mk.inj (q.deleteItems_deleteTarget (h.order_lt hx) hne)).2.2.2

theorem OrderedWithout.deleted (h : q.OrderedWithout D c) (hq : q.Inv) (ho : o < q.length)
    (hmax : ∀ x, D x → x ≤ q.order o) (hco : c ≠ o) :
    (q.deleted (q.order o) o).OrderedWithout (fun x => D x ∧ x ≠ q.order o) (deleteTarget o c) := by
  have hmem : ∀ x < q.length, x ≠ o →
      ((D ((q.deleted (q.order o) o).order (deleteTarget o x)) ∧
        (q.deleted (q.order o) o).order (deleteTarget o x) ≠ q.order o) ↔ D (q.order x)) := by
    intro x hx hxo
    rw [deleted_order_deleteTarget q hx ho hxo]
    exact mem_deleteTarget_iff hmax fun heq => hxo (hq.order_inj hx ho heq)
  rintro j hj i hij k hki ⟨hck, hk, hi, hj'⟩
  rw [deleted_length] at hj
  obtain ⟨z, hz, hzo, rfl⟩ := exists_deleteTarget_eq hj o
  obtain ⟨y, hy, hyo, rfl⟩ := exists_deleteTarget_eq (hij.trans_lt hj) o
  obtain ⟨x, hx, hxo, rfl⟩ := exists_deleteTarget_eq (hki.trans_le hij |>.trans hj) o
  rw [hq.deleted_orderPriority hz ho hzo, hq.deleted_orderPriority hy ho hyo]
  rw [← not_lt, deleteTarget_lt_iff hzo hyo, not_lt] at hij
  rw [← not_lt, deleteTarget_lt_iff hxo hco, not_lt] at hck
  exact h z hz y hij x ((deleteTarget_lt_iff hxo hyo).mp hki)
    ⟨hck, mt (hmem x hx hxo).mpr hk, mt (hmem y hy hyo).mpr hi, mt (hmem z hz hzo).mpr hj'⟩

theorem OrderedWithout.deleted_zero (h : q.OrderedWithout D 0) (hq : q.Inv) (ho : o < q.length)
    (hmax : ∀ x, D x → x ≤ q.order o) :
    (q.deleted (q.order o) o).OrderedWithout (fun x => D x ∧ x ≠ q.order o) 0 := by
  rcases eq_or_ne o 0 with rfl | hne
  · exact (h.mono (Nat.zero_le 1)).deleted hq ho hmax one_ne_zero
  · have := h.deleted hq ho hmax hne.symm
    rwa [show deleteTarget o 0 = 0 from if_neg (Nat.not_lt_zero o)] at this

theorem Inv.forall_of_deleted (hq : q.Inv) (ho : o < q.length) (hD : D (q.order o))
    (hmax : ∀ x, D x → x ≤ q.order o) (hco : c ≠ o)
    (h : ∀ i < (q.deleted (q.order o) o).length, deleteTarget o c ≤ i →
      D ((q.deleted (q.order o) o).order i) ∧ (q.deleted (q.order o) o).order i ≠ q.order o) :
    ∀ i < q.length, c ≤ i → D (q.order i) := by
  intro i hi hci
  rcases eq_or_ne i o with rfl | hio
  · exact hD
  · have hle : deleteTarget o c ≤ deleteTarget o i := by
      rwa [← not_lt, deleteTarget_lt_iff hio hco, not_lt]
    have hlt := deleteTarget_lt hi ho hio
    have := h _ ((deleted_length q _ o).symm ▸ hlt) hle
    rw [deleted_order_deleteTarget q hi ho hio] at this
    exact (mem_deleteTarget_iff hmax fun heq => hio (hq.order_inj hi ho heq)).mp this

/-! ### Songs that change their positions -/

theorem incrementVersion_orderPriority (q : Queue σ) (i : ℕ) :
    q.incrementVersion.orderPriority i = q.orderPriority i := by
  obtain ⟨v, hv⟩ := q.incrementVersion_items (q.order i)
  rw [orderPriority, incrementVersion_order, hv]
  rfl

theorem swap_priorityAt (q : Queue σ) (p₁ p₂ p : ℕ) :
    (q.swap p₁ p₂).priorityAt p = q.priorityAt (Equiv.swap p₁ p₂ p) := by
  rw [priorityAt, swap_items]
  split
  · rfl
  · rw [swap_apply_of_ne_of_ne (by tauto) (by tauto)]
    rfl

theorem moveRangeBody_priorityAt (q : Queue σ) {start stop dst n : ℕ}
    (h : InRange start stop dst n) (hn : n < 2147483648) (p : ℕ) :
    (q.moveRangeBody start stop dst).priorityAt p =
      q.priorityAt (rangeSource start stop dst p) := by
  rw [priorityAt, moveRangeBody_items q h hn]
  split
  · rfl
  · rw [rangeSource_of_not_mem h.start_le ‹_›]
    rfl

def ShufflesTo (start stop d x y : ℕ) : Prop :=
  if start ≤ x ∧ x < stop then (start ≤ y ∧ y < stop) ∧ y ≠ d else y = x
  deriving Decidable

def ShufflesInOrder (q : Queue σ) (start stop d c : ℕ) : Prop :=
  ∀ j < q.length, ∀ i < j, c < i → ∀ y < q.length, ∀ z < q.length,
    ShufflesTo start stop d (q.order i) y ∧ ShufflesTo start stop d (q.order j) z ∧ y ≠ z →
      q.priorityAt z ≤ q.priorityAt y

instance (q : Queue σ) (start stop d c : ℕ) : Decidable (q.ShufflesInOrder start stop d c) :=
  haveI : ∀ i j, Decidable (∀ y < q.length, ∀ z < q.length, ShufflesTo start stop d (q.order i) y ∧
      ShufflesTo start stop d (q.order j) z ∧ y ≠ z → q.priorityAt z ≤ q.priorityAt y) :=
    fun _ _ => inferInstance
  inferInstanceAs (Decidable (∀ j < _, ∀ i < j, _ → _))

theorem ShufflesInOrder.ordered {start stop d : ℕ} (h : q.ShufflesInOrder start stop d c)
    (hq : q.Inv) (hstop : stop ≤ q.length) (hlen : q'.length = q.length)
    (hord : q'.order = q.order) {e : Equiv.Perm ℕ}
    (hprio : ∀ x, q'.priorityAt x = q.priorityAt (e x))
    (hto : ∀ i < q.length, c < i → ShufflesTo start stop d (q.order i) (e (q.order i))) :
    q'.Ordered (c + 1) := by
  have hlt : ∀ i < q.length, c < i → e (q.order i) < q.length := by
    intro i hi hci
    have := hto i hi hci
    unfold ShufflesTo at this
    split at this
    · omega
    · rw [this]
      exact hq.order_lt hi
  intro j hj i hij hi
  rw [hlen] at hj
  rcases hij.eq_or_lt with rfl | hij
  · exact le_rfl
  have hne : e (q.order i) ≠ e (q.order j) := fun heq =>
    hij.ne (hq.order_inj (hij.trans hj) hj (e.injective heq))
  show q'.priorityAt (q'.order j) ≤ q'.priorityAt (q'.order i)
  rw [hord, hprio, hprio]
  exact h j hj i hij hi _ (hlt i (hij.trans hj) hi) _ (hlt j hj (by omega))
    ⟨hto i (hij.trans hj) hi, hto j hj (by omega), hne⟩

theorem shuffleRange_priorityAt (q : Queue σ) (start : ℕ) {stop : ℕ} (h : stop ≤ q.length) :
    ∃ e : Equiv.Perm ℕ, FixesOutside start stop e ∧
      ∀ x, (q.shuffleRange start stop).priorityAt x = q.priorityAt (e x) := by
  obtain ⟨e, he, hsrc⟩ := (shuffled_shuffleRange q start h).source
  exact ⟨e, he, fun x => (QueueItem.mk.inj (hsrc x)).2.2.2⟩

section

variable {start stop d : ℕ} (h : q.ShufflesInOrder start stop d c) (hq : q.Inv)
  (hstop : stop ≤ q.length)
include h hq hstop

theorem ShufflesInOrder.shuffleRange (hd : ¬ (start ≤ d ∧ d < stop)) :
    (q.shuffleRange start stop).Ordered (c + 1) := by
  have hframe := (shuffled_shuffleRange q start hstop).frame
  obtain ⟨e, he, hprio⟩ := q.shuffleRange_priorityAt start hstop
  refine h.ordered hq hstop (by rw [hframe]) (by rw [hframe]) hprio fun i _ _ => ?_
  unfold ShufflesTo
  split
  · next hin =>
    have hmem := he.apply_mem hin.1 hin.2
    exact ⟨hmem, fun heq => hd (heq ▸ hmem)⟩
  · exact he _ ‹_›

theorem ShufflesInOrder.swap_shuffleRange
    (hd : start ≤ d ∧ d < stop) (hc : c < q.length) (hcd : q.order c = start) :
    ((q.swap start d).shuffleRange (start + 1) stop).Ordered (c + 1) := by
  have hframe := (shuffled_shuffleRange (q.swap start d) (start + 1) hstop).frame
  obtain ⟨e, he, hprio⟩ := (q.swap start d).shuffleRange_priorityAt (start + 1) hstop
  refine h.ordered hq hstop (e := Equiv.swap start d * e) (by rw [hframe]; rfl)
    (by rw [hframe]; rfl) (fun x => by rw [hprio, swap_priorityAt]; rfl) fun i hi hci => ?_
  have hne : q.order i ≠ start := fun heq => hci.ne' (hq.order_inj hi hc (heq.trans hcd.symm))
  unfold ShufflesTo
  rw [Equiv.Perm.mul_apply]
  split
  · next hin =>
    obtain ⟨h₁, h₂⟩ := he.apply_mem (i := q.order i) (by omega) hin.2
    rw [swap_apply_def]
    split_ifs <;> omega
  · next hout =>
    rw [he _ (by omega), swap_apply_of_ne_of_ne hne (by omega)]

end

end Queue

end Mpd
