import Mpd.Queue.Priority

/-!
# The play queue: versions

A client that has read the version `V` of the queue asks later which songs have changed since:
`queue_song_newer`. The queue does not record changes; it stamps a slot with the present version
when it writes to it, and increments the version afterwards.

`Rewrites W q q'` says that just the slots of `W` have been written and stamped. It is proved for
every loop over the items, and it composes. `Revised` adds the increment of the version, and
`History` is a sequence of revisions. Two facts follow about a history in which the version number
has not wrapped: a changed slot is newer than every version before the change, and a slot that was
not written is not.
-/

namespace Mpd

open Function (update)
open Arrangement (Draws)

namespace Queue

variable {σ : Type} {q q' q'' q₀ : Queue σ} {W W' : Set ℕ} {start stop : ℕ}

/-! ### Rewritten slots -/

/-- Exactly the slots of `W` are rewritten, and stamped with the present version. -/
structure Rewrites (W : Set ℕ) (q q' : Queue σ) : Prop where
  version : q'.version = q.version
  wraps : q'.wraps = q.wraps
  stamped : ∀ p ∈ W, (q'.items p).version = q.version
  kept : ∀ p ∉ W, q'.items p = q.items p
  inUse : ∀ p < q'.length, p < q.length ∨ p ∈ W

/-- The slots in use and their versions stay as they are. -/
structure SameSlots (q q' : Queue σ) : Prop where
  version : q'.version = q.version
  wraps : q'.wraps = q.wraps
  items : q'.items = q.items
  length : q'.length = q.length

theorem SameSlots.refl : SameSlots q q :=
  ⟨rfl, rfl, rfl, rfl⟩

theorem SameSlots.trans (h : SameSlots q q') (h' : SameSlots q' q'') : SameSlots q q'' :=
  ⟨h'.version.trans h.version, h'.wraps.trans h.wraps, h'.items.trans h.items,
    h'.length.trans h.length⟩

theorem SameSongs.sameSlots (h : SameSongs q q') : SameSlots q q' := by
  rw [h]
  exact ⟨rfl, rfl, rfl, rfl⟩

namespace Rewrites

theorem of_ite {P : ℕ → Prop} [DecidablePred P] {f : ℕ → QueueItem σ}
    (hversion : q'.version = q.version) (hwraps : q'.wraps = q.wraps)
    (hitems : ∀ p, q'.items p = if P p then f p else q.items p)
    (hf : ∀ p, (f p).version = q.version) (huse : ∀ p < q'.length, p < q.length ∨ P p) :
    Rewrites { p | P p } q q' := by
  refine ⟨hversion, hwraps, fun p hp => ?_, fun p hp => ?_, huse⟩
  · rw [hitems, if_pos (show P p from hp), hf]
  · rw [hitems, if_neg (show ¬ P p from hp)]

theorem trans (h : Rewrites W q q') (h' : Rewrites W' q' q'') : Rewrites (W ∪ W') q q'' := by
  refine ⟨h'.version.trans h.version, h'.wraps.trans h.wraps, fun p hp => ?_, fun p hp => ?_,
    fun p hp => ?_⟩
  · by_cases hp' : p ∈ W'
    · exact (h'.stamped p hp').trans h.version
    · rw [h'.kept p hp', h.stamped p (hp.resolve_right hp')]
  · rw [h'.kept p fun hp' => hp (.inr hp'), h.kept p fun hp' => hp (.inl hp')]
  · rcases h'.inUse p hp with hp | hp
    · exact (h.inUse p hp).imp_right .inl
    · exact .inr (.inr hp)

theorem of_sameSlots (h : SameSlots q q') : Rewrites ∅ q q' :=
  ⟨h.version, h.wraps, fun _ hp => absurd hp (Set.notMem_empty _), fun _ _ => by rw [h.items],
    fun _ hp => .inl (h.length ▸ hp)⟩

theorem refl : Rewrites ∅ q q :=
  of_sameSlots .refl

theorem trans_sameSlots (h : Rewrites W q q') (h' : SameSlots q' q'') : Rewrites W q q'' := by
  simpa only [Set.union_empty] using h.trans (of_sameSlots h')

end Rewrites

theorem SameSlots.trans_rewrites (h : SameSlots q q') (h' : Rewrites W q' q'') :
    Rewrites W q q'' := by
  simpa only [Set.empty_union] using (Rewrites.of_sameSlots h).trans h'

theorem rewrites_appended (q : Queue σ) (song : σ) (priority id : ℕ) :
    Rewrites {q.length} q (q.appended song priority id) :=
  .of_ite (P := fun p => p = q.length) rfl rfl (fun p => Function.update_apply _ _ _ p)
    (fun _ => rfl) fun _ hp => Nat.lt_succ_iff_lt_or_eq.mp hp

theorem append_yields (q : Queue σ) (song : σ) (priority : ℕ) :
    (q.append song priority).Yields fun r => Rewrites {q.length} q r.1 := by
  refine .after fun id => ?_
  refine .branch .error <| .ok ?_
  exact q.rewrites_appended song priority id

theorem rewrites_swap (q : Queue σ) (p₁ p₂ : ℕ) : Rewrites {p₁, p₂} q (q.swap p₁ p₂) :=
  .of_ite (P := fun p => p = p₁ ∨ p = p₂) rfl rfl (q.swap_items p₁ p₂) (fun _ => rfl)
    fun _ hp => .inl hp

theorem rewrites_place (q : Queue σ) (item : QueueItem σ) (dst : ℕ) :
    Rewrites {dst} q (q.place item dst) :=
  .of_ite (P := fun p => p = dst) rfl rfl (fun p => Function.update_apply _ _ _ p)
    (fun _ => rfl) fun _ hp => .inl hp

def targets {α : Type} (l : List (α × ℕ)) : Set ℕ :=
  { p | ∃ m ∈ l, m.2 = p }

theorem targets_nil {α : Type} : targets ([] : List (α × ℕ)) = ∅ := by
  simp [targets]

theorem targets_cons {α : Type} (m : α × ℕ) (l : List (α × ℕ)) :
    targets (m :: l) = {m.2} ∪ targets l := by
  ext p
  simp [targets, eq_comm]

theorem targets_append {α : Type} (l l' : List (α × ℕ)) :
    targets (l ++ l') = targets l ∪ targets l' := by
  ext p
  simp [targets, or_and_right, exists_or]

section

variable (q : Queue σ)

theorem rewrites_placeAll (l : List (QueueItem σ × ℕ)) : Rewrites (targets l) q (q.placeAll l) := by
  induction l generalizing q with
  | nil =>
    rw [targets_nil]
    exact .refl
  | cons m l ih =>
    rw [targets_cons]
    exact (q.rewrites_place m.1 m.2).trans (ih _)

theorem rewrites_moveSongs (l : List (ℕ × ℕ)) : Rewrites (targets l) q (q.moveSongs l) := by
  induction l generalizing q with
  | nil =>
    rw [targets_nil]
    exact .refl
  | cons m l ih =>
    rw [targets_cons]
    exact (q.rewrites_place (q.items m.1) m.2).trans (ih _)

theorem rewrites_moveRangeBody (start stop dst : ℕ) :
    Rewrites (targets (rangeMoves start stop dst)) q (q.moveRangeBody start stop dst) := by
  have hblock : targets (rangeBlock start stop dst) =
      targets ((rangeBlock start stop dst).map fun m => (q.items m.1, m.2)) := by
    simp [targets]
  have hloops := ((q.rewrites_moveSongs (rangeUp start stop dst)).trans
    (rewrites_moveSongs _ (rangeDown start stop dst))).trans
    (rewrites_placeAll _ ((rangeBlock start stop dst).map fun m => (q.items m.1, m.2)))
  rw [rangeMoves, targets_append, targets_append, hblock, moveRangeBody]
  refine hloops.trans_sameSlots ?_
  split
  · exact ⟨rfl, rfl, rfl, rfl⟩
  · exact .refl

theorem moveRange_yields (start stop dst : ℕ) :
    (q.moveRange start stop dst).Yields (Rewrites (targets (rangeMoves start stop dst)) q) := by
  refine .branch .error ?_
  split
  · exact .error
  · exact .ok (q.rewrites_moveRangeBody start stop dst)

theorem rewrites_deleteItems (position : ℕ) :
    Rewrites (Set.Ico position (q.length - 1)) q (q.deleteItems position) := by
  refine .of_ite ?_ ?_ (q.deleteItems_items position) (fun _ => rfl) fun p hp => .inl ?_
  · rw [deleteItems_eq]
  · rw [deleteItems_eq]
  · rw [deleteItems_length] at hp
    omega

theorem delete_yields (position : ℕ) : (q.delete position).Yields fun q' =>
      Rewrites (Set.Ico position (q.length - 1)) q q' ∧ q'.length = q.length - 1 := by
  refine .branch .error ?_
  refine .after fun order => .ok ⟨?_, ?_⟩
  · exact (q.rewrites_deleteItems position).trans_sameSlots ⟨rfl, rfl, rfl, rfl⟩
  · exact q.deleteItems_length position

theorem rewrites_shuffleRange (start : ℕ) (hstop : stop ≤ q.length) :
    Rewrites (Set.Ico start stop) q (q.shuffleRange start stop) := by
  have h := q.shuffled_shuffleRange start hstop
  refine ⟨by rw [h.frame], by rw [h.frame], fun p hp => h.stamped p hp.1 hp.2,
    fun p hp => h.untouched p hp, fun p hp => .inl ?_⟩
  rwa [h.frame] at hp

theorem rewrites_clear : Rewrites ∅ q q.clear :=
  ⟨rfl, rfl, fun _ hp => absurd hp (Set.notMem_empty _), fun _ _ => rfl,
    fun p hp => absurd hp (Nat.not_lt_zero p)⟩

end

def otherPriority (q : Queue σ) (start stop priority : ℕ) : Set ℕ :=
  { p | (start ≤ p ∧ p < stop) ∧ (q.items p).priority ≠ priority }

theorem rewrites_withPriorities (q : Queue σ) (start stop priority : ℕ) :
    Rewrites (q.otherPriority start stop priority) q (q.withPriorities start stop priority) :=
  .of_ite rfl rfl (fun _ => rfl) (fun _ => rfl) fun _ hp => .inl hp

/-! ### Revisions -/

inductive Revised : Set ℕ → Queue σ → Queue σ → Prop
  | silent {q q' : Queue σ} : SameSlots q q' → Revised ∅ q q'
  | edit {W : Set ℕ} {q q₁ q' : Queue σ} : Rewrites W q q₁ →
      SameSlots q₁.incrementVersion q' → Revised W q q'

theorem incrementVersion_cases (q : Queue σ) : q.incrementVersion.wraps = q.wraps + 1 ∨
      q.incrementVersion = { q with version := q.version + 1 } := by
  rw [incrementVersion]
  split
  · exact .inl rfl
  · exact .inr rfl

theorem incrementVersion_pos (q : Queue σ) : 0 < q.incrementVersion.version := by
  rw [incrementVersion]
  split
  · exact Nat.one_pos
  · exact Nat.succ_pos _

namespace Revised

theorem wraps_le (h : Revised W q q') : q.wraps ≤ q'.wraps := by
  cases h with
  | silent h => exact h.wraps.ge
  | @edit _ _ q₁ _ h h' =>
    have := h.wraps
    have := h'.wraps
    rcases q₁.incrementVersion_cases with hwrap | hnext
    · omega
    · rw [hnext] at h'
      have := h'.wraps
      dsimp only at this
      omega

theorem of_wraps_eq (h : Revised W q q') (hwraps : q'.wraps = q.wraps) : q.version ≤ q'.version ∧
      (∀ p ∈ W, (q'.items p).version = q.version ∧ q.version < q'.version) ∧
      (∀ p ∉ W, q'.items p = q.items p) ∧ ∀ p < q'.length, p < q.length ∨ p ∈ W := by
  cases h with
  | silent h =>
    exact ⟨h.version.ge, fun p hp => absurd hp (Set.notMem_empty p), fun p _ => by rw [h.items],
      fun p hp => .inl (h.length ▸ hp)⟩
  | @edit _ _ q₁ _ h h' =>
    have hw := h.wraps
    have hw' := h'.wraps
    rcases q₁.incrementVersion_cases with hwrap | hnext
    · omega
    · rw [hnext] at h'
      have hitems : ∀ p, q'.items p = q₁.items p := fun p => by rw [h'.items]
      have hlt : q.version < q'.version := by
        rw [h'.version, h.version]
        exact Nat.lt_succ_self _
      refine ⟨hlt.le, fun p hp => ⟨?_, hlt⟩, fun p hp => ?_, fun p hp => ?_⟩
      · rw [hitems, h.stamped p hp]
      · rw [hitems, h.kept p hp]
      · exact h.inUse p (h'.length ▸ hp)

end Revised

/-! ### Histories -/

def History : Queue σ → Queue σ → Prop :=
  Relation.ReflTransGen fun q q' => ∃ W, Revised W q q'

theorem Revised.history (h : Revised W q q') : History q q' :=
  .single ⟨W, h⟩

theorem SameSlots.history (h : SameSlots q q') : History q q' :=
  (Revised.silent h).history

theorem History.wraps_le (h : History q₀ q) : q₀.wraps ≤ q.wraps := by
  induction h with
  | refl => exact le_rfl
  | tail _ hstep ih =>
    obtain ⟨W, hW⟩ := hstep
    exact ih.trans hW.wraps_le

theorem modify_history (q : Queue σ) (order : ℕ) : (q.modify order).Yields q.History := by
  refine .after fun p => .ok ?_
  have h : Rewrites {p} q { q with
      items := update q.items p ((q.items p).stamp q.version) } :=
    .of_ite (P := fun p' => p' = p) rfl rfl (fun p' => Function.update_apply _ _ _ p')
      (fun _ => rfl) fun _ hp => .inl hp
  exact (Revised.edit h .refl).history

theorem modifyAll_history (q : Queue σ) : q.History q.modifyAll := by
  have h : Rewrites (Set.Iio q.length) q { q with
      items := fun i => if i < q.length then (q.items i).stamp q.version else q.items i } :=
    .of_ite rfl rfl (fun _ => rfl) (fun _ => rfl) fun _ hp => .inl hp
  exact (Revised.edit h .refl).history

/-- **Changes are stamped.** As long as the version number does not wrap, a slot is as it was, or
its stamp is not older than the version at the beginning. -/
theorem History.of_wraps_eq (h : History q₀ q) (hwraps : q.wraps = q₀.wraps) :
    q₀.version ≤ q.version ∧ ∀ p < q.length,
      (p < q₀.length ∧ q.items p = q₀.items p) ∨ q₀.version ≤ (q.items p).version := by
  induction h with
  | refl => exact ⟨le_rfl, fun p hp => .inl ⟨hp, rfl⟩⟩
  | @tail q₁ q₂ h₁ hstep ih =>
    obtain ⟨W, hW⟩ := hstep
    have hw₁ := History.wraps_le h₁
    have hw₂ := hW.wraps_le
    obtain ⟨hv, hitems⟩ := ih (by omega)
    obtain ⟨hv', hstamped, hkept, huse⟩ := hW.of_wraps_eq (by omega)
    refine ⟨hv.trans hv', fun p hp => ?_⟩
    by_cases hpW : p ∈ W
    · rw [(hstamped p hpW).1]
      exact .inr hv
    · rw [hkept p hpW]
      exact hitems p ((huse p hp).resolve_right hpW)

/-- Before the version number wraps for the first time, every stamp is a version of the past. -/
structure Fresh (q : Queue σ) : Prop where
  version_pos : 0 < q.version
  stamp : q.wraps = 0 → ∀ p < q.length, 0 < (q.items p).version ∧ (q.items p).version < q.version

theorem fresh_init (maxLength : ℕ) (items : ℕ → QueueItem σ) (order : ℕ → ℕ) (rand : Draws)
    (cur : ℕ) : (init maxLength items order rand cur).Fresh :=
  ⟨Nat.one_pos, fun _ p hp => absurd hp (Nat.not_lt_zero p)⟩

theorem Fresh.revised (hq : q.Fresh) (h : Revised W q q') : q'.Fresh := by
  refine ⟨?_, fun hw p hp => ?_⟩
  · cases h with
    | silent h => exact h.version.symm ▸ hq.version_pos
    | edit h h' => exact h'.version.symm ▸ incrementVersion_pos _
  · have hle := h.wraps_le
    obtain ⟨hv, hstamped, hkept, huse⟩ := h.of_wraps_eq (by omega)
    by_cases hpW : p ∈ W
    · obtain ⟨hs, hlt⟩ := hstamped p hpW
      rw [hs]
      exact ⟨hq.version_pos, hlt⟩
    · obtain ⟨h₁, h₂⟩ := hq.stamp (by omega) p ((huse p hp).resolve_right hpW)
      rw [hkept p hpW]
      exact ⟨h₁, h₂.trans_le hv⟩

theorem Fresh.history (hq : q.Fresh) (h : History q q') : q'.Fresh := by
  induction h with
  | refl => exact hq
  | tail _ hstep ih =>
    obtain ⟨W, hW⟩ := hstep
    exact ih.revised hW

/-! ### What the client is told -/

theorem History.songNewer (h : History q₀ q)
    (hV : q.wraps = q₀.wraps ∨ q.version < q₀.version) {p : ℕ} (hp : p < q.length)
    (hne : ¬ (p < q₀.length ∧ (q.items p).stamp 0 = (q₀.items p).stamp 0)) :
    q.songNewer p q₀.version = true := by
  rw [Queue.songNewer, Bool.or_eq_true, Bool.or_eq_true, decide_eq_true_eq, decide_eq_true_eq]
  rcases hV with hwraps | hlt
  · rcases (h.of_wraps_eq hwraps).2 p hp with ⟨hp₀, heq⟩ | hle
    · exact absurd ⟨hp₀, by rw [heq]⟩ hne
    · exact .inl (.inr hle)
  · exact .inl (.inl hlt)

theorem Fresh.not_songNewer (h : q₀.Fresh) (hwraps : q₀.wraps = 0) (hv : q₀.version ≤ q.version)
    {p : ℕ} (hp : p < q₀.length) (heq : q.items p = q₀.items p) :
    q.songNewer p q₀.version = false := by
  obtain ⟨h₁, h₂⟩ := h.stamp hwraps p hp
  rw [Queue.songNewer, heq, decide_eq_false hv.not_gt, decide_eq_false h₂.not_ge, Bool.false_or,
    Bool.false_or, beq_eq_false_iff_ne]
  exact h₁.ne'

end Queue

end Mpd
