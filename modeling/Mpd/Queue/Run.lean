import Mpd.General.Runs
import Mpd.Queue.Priority

/-!
# The play queue: every run keeps the queue consistent

The operations of the queue as one type, with the preconditions their callers meet. A run from
`queue_init` that meets them never leaves the arrays, and the three index structures stay
consistent, whatever the random generator produces.
-/

namespace Mpd

open Arrangement

namespace Queue

variable {σ : Type} {q q' : Queue σ}

/-- The operations of a queue. -/
inductive Op (σ : Type)
  | append (song : σ) (priority : ℕ)
  | swap (position₁ position₂ : ℕ)
  | move (src dst : ℕ)
  | moveRange (start stop dst : ℕ)
  | delete (position : ℕ)
  | clear
  | shuffleRange (start stop : ℕ)
  | setPriority (position priority : ℕ) (afterOrder : ℤ)
  | setPriorityRange (start stop priority : ℕ) (afterOrder : ℤ)
  | swapOrder (order₁ order₂ : ℕ)
  | shuffleOrder
  | shuffleOrderRange (start stop : ℕ)
  | shuffleOrderRangeWithPriority (start stop : ℕ)
  | shuffleOrderFirst (start stop : ℕ)
  | shuffleOrderLast (start stop : ℕ)
  /-- set the `random` flag -/
  | randomOn
  /-- clear the `random` flag and call `queue_restore_order` -/
  | randomOff

def Op.run [Qsort] : Op σ → Queue σ → Except Fault (Queue σ)
  | append song priority, q => Prod.fst <$> q.append song priority
  | swap p₁ p₂, q => .ok (q.swap p₁ p₂)
  | move src dst, q => .ok (q.move src dst)
  | moveRange start stop dst, q => q.moveRange start stop dst
  | delete p, q => q.delete p
  | clear, q => .ok q.clear
  | shuffleRange start stop, q => .ok (q.shuffleRange start stop)
  | setPriority p priority afterOrder, q => Prod.fst <$> q.setPriority p priority afterOrder
  | setPriorityRange start stop priority afterOrder, q =>
    Prod.fst <$> q.setPriorityRange start stop priority afterOrder
  | swapOrder o₁ o₂, q => .ok (q.swapOrder o₁ o₂)
  | shuffleOrder, q => q.shuffleOrder
  | shuffleOrderRange start stop, q => .ok (q.shuffleOrderRange start stop)
  | shuffleOrderRangeWithPriority start stop, q => q.shuffleOrderRangeWithPriority start stop
  | shuffleOrderFirst start stop, q => .ok (q.shuffleOrderFirst start stop)
  | shuffleOrderLast start stop, q => .ok (q.shuffleOrderLast start stop)
  | randomOn, q => .ok { q with random := true }
  | randomOff, q => .ok { q with random := false }.restoreOrder

/-- What the caller has to keep to. -/
def Op.Allowed : Op σ → Queue σ → Prop
  | append _ _, q => q.length < q.maxLength
  | swap p₁ p₂, q => p₁ < q.length ∧ p₂ < q.length
  | move src dst, q => src < q.length ∧ dst < q.length
  | moveRange start stop dst, q =>
    start < stop ∧ stop ≤ q.length ∧ dst + (stop - start) ≤ q.length
  | delete p, q => p < q.length
  | clear, _ => True
  | shuffleRange start stop, q => start ≤ stop ∧ stop ≤ q.length
  | setPriority p _ afterOrder, q => p < q.length ∧ afterOrder < q.length
  | setPriorityRange start stop _ afterOrder, q =>
    start ≤ stop ∧ stop ≤ q.length ∧ afterOrder < q.length
  | swapOrder o₁ o₂, q => q.random = true ∧ o₁ < q.length ∧ o₂ < q.length
  | shuffleOrder, q => q.random = true
  | shuffleOrderRange start stop, q => q.random = true ∧ start ≤ stop ∧ stop ≤ q.length
  | shuffleOrderRangeWithPriority start stop, q =>
    q.random = true ∧ start ≤ stop ∧ stop ≤ q.length
  | shuffleOrderFirst start stop, q => q.random = true ∧ start < stop ∧ stop ≤ q.length
  | shuffleOrderLast start stop, q => q.random = true ∧ start < stop ∧ stop ≤ q.length
  | randomOn, _ => True
  | randomOff, _ => True

instance (op : Op σ) (q : Queue σ) : Decidable (op.Allowed q) := by
  rcases op <;> dsimp only [Op.Allowed] <;> infer_instance

theorem inv_init {maxLength : ℕ} (hmax : maxLength * 4 < 4294967296) (items : ℕ → QueueItem σ)
    (order : ℕ → ℕ) (rand : Draws) (cur : ℕ) : (init maxLength items order rand cur).Inv := by
  refine ⟨hmax, Nat.zero_le _, bijOn_of_injOn ?_ ?_, ⟨?_, fun id _ p => ?_, fun _ _ _ => rfl⟩, ?_⟩
  · exact fun i hi => absurd hi (Nat.not_lt_zero i)
  · exact fun i hi => absurd hi (Nat.not_lt_zero i)
  · exact fun i hi => absurd hi (Nat.not_lt_zero i)
  · exact ⟨fun heq => by simp [init] at heq, fun hp => absurd hp.1 (Nat.not_lt_zero p)⟩
  · exact fun _ i hi => absurd hi (Nat.not_lt_zero i)

/-- **Step.** An allowed operation on a consistent queue returns a consistent queue. -/
theorem Inv.run_succeeds [Qsort] (h : q.Inv) {op : Op σ} (ha : op.Allowed q) :
    (op.run q).Succeeds Inv := by
  cases op with
  | append song priority =>
    exact (h.append_succeeds ha song priority).bind fun r hr => .ok hr.2
  | swap p₁ p₂ => exact .ok (h.swap ha.1 ha.2)
  | move src dst => exact .ok (h.move ha.1 ha.2)
  | moveRange start stop dst =>
    obtain ⟨h₁, h₂, h₃⟩ := ha
    have hr : InRange start stop dst q.length := ⟨h₁.le, h₂, h₃⟩
    exact ⟨_, h.moveRange_eq hr, h.moveRangeBody hr⟩
  | delete p =>
    obtain ⟨o, ho, rfl⟩ := h.exists_order (show p < q.length from ha)
    exact ⟨_, h.delete_eq ho, h.deleted ho⟩
  | clear => exact .ok h.clear
  | shuffleRange start stop =>
    exact .ok ((shuffled_shuffleRange q start ha.2).inv h)
  | setPriority p priority afterOrder =>
    exact (h.setPriority_succeeds ha.1 ha.2).bind fun r hr => .ok hr
  | setPriorityRange start stop priority afterOrder =>
    exact (h.setPriorityRange_succeeds ha.1 ha.2.1 ha.2.2).bind fun r hr => .ok hr
  | swapOrder o₁ o₂ => exact .ok (h.swapOrder ha.1 ha.2.1 ha.2.2)
  | shuffleOrder =>
    exact q.shuffleOrder_succeeds.mono fun q' hq' => h.of_rearranged ha hq'.1 hq'.2.1
  | shuffleOrderRange start stop =>
    exact .ok (h.shuffleOrderRange ha.1 ha.2.1 ha.2.2)
  | shuffleOrderRangeWithPriority start stop =>
    exact (q.shuffleOrderRangeWithPriority_succeeds ha.2.1).mono fun q' hq' =>
      h.of_rearranged ha.1 hq'.1 (hq'.2.1.mono (Nat.zero_le _) ha.2.2)
  | shuffleOrderFirst start stop =>
    exact .ok (h.shuffleOrderFirst ha.1 ha.2.1 ha.2.2)
  | shuffleOrderLast start stop =>
    exact .ok (h.shuffleOrderLast ha.1 ha.2.1 ha.2.2)
  | randomOn =>
    exact .ok (h.congr rfl rfl rfl (fun _ => rfl) h.order_bijOn fun hf => absurd hf (by simp))
  | randomOff => exact .ok (h.restoreOrder rfl rfl rfl fun _ => rfl)

theorem Inv.reaches [Qsort] (h : q.Inv) (hr : Reaches Op.run Op.Allowed q q') : q'.Inv :=
  hr.invariant h fun _ _ ha hq => Except.Succeeds.yields (hq.run_succeeds ha)

/-- **Consistency of the queue.** After any run of allowed operations from `queue_init`, the
order array is a permutation of the live positions, ids are distinct, the id map is the inverse
of the item list, and order numbers are positions in normal mode. The next allowed operation
returns as well. -/
theorem reaches_consistent [Qsort] {maxLength : ℕ} (hmax : maxLength * 4 < 4294967296)
    {items : ℕ → QueueItem σ} {order : ℕ → ℕ} {rand : Draws} {cur : ℕ}
    (h : Reaches Op.run Op.Allowed (init maxLength items order rand cur) q) :
    Set.BijOn q.order (Set.Iio q.length) (Set.Iio q.length) ∧
    (∀ p < q.length, (q.items p).id < q.maxLength * 4) ∧
    (∀ p < q.length, ∀ p' < q.length, (q.items p).id = (q.items p').id → p = p') ∧
    (∀ id < q.maxLength * 4, ∀ p : ℕ, q.idToPosition id = p ↔ p < q.length ∧ (q.items p).id = id) ∧
    (∀ id < q.maxLength * 4, (∀ p < q.length, (q.items p).id ≠ id) → q.idToPosition id = -1) ∧
    (q.random = false → ∀ i < q.length, q.order i = i) ∧
    ∀ op : Op σ, op.Allowed q → ∃ q', op.run q = .ok q' := by
  have hq : q.Inv := (inv_init hmax items order rand cur).reaches h
  refine ⟨hq.order_bijOn, hq.indexed.id_lt, fun p hp p' hp' => hq.indexed.injOn hp hp',
    hq.indexed.position_iff, hq.indexed.unused, hq.order_eq, fun op ha => ?_⟩
  obtain ⟨q', hrun, -⟩ := hq.run_succeeds ha
  exact ⟨q', hrun⟩

theorem reaches_consistent_three_songs : ∃ q : Queue ℕ,
    Reaches Op.run Op.Allowed (init 4 (fun _ => ⟨0, 0, 0, 0⟩) id (fun k => k) 7) q ∧
      q.length = 2 ∧ Set.BijOn q.order (Set.Iio q.length) (Set.Iio q.length) := by
  obtain ⟨q, hq, hlen⟩ := exists_reaches Op.run Op.Allowed
    (init 4 (fun _ => (⟨0, 0, 0, 0⟩ : QueueItem ℕ)) id (fun k => k) 7)
    [.append 10 0, .append 11 5, .append 12 0, .randomOn, .shuffleOrder, .move 2 0,
      .setPriority 1 7 (-1), .delete 1]
    (P := fun q => q.length = 2) (by decide +kernel)
  exact ⟨q, hq, hlen, (reaches_consistent (by decide) hq).1⟩

end Queue

end Mpd
