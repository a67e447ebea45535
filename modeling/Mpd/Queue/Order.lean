import Mpd.Queue.Basic

/-!
# The play queue: random order and priorities

The operations of `playqueue.c` on the order array: shuffling, sorting by priority, and moving
one song into the group of its new priority.

`g_rand_int_range(rand, a, b)` takes the next of the generator's draws in `[a, b)`; since the
draws are an arbitrary sequence, what holds for every queue holds for every random outcome.
`g_qsort_with_data` is a parameter (`Qsort`) with its documented behaviour: it permutes its
array, and sorts it whenever the comparison is a total preorder.
-/

namespace Mpd

open Function (update)
open Arrangement (swapAt readList writeList)

/-- `g_qsort_with_data` on an array of `unsigned`. -/
class Qsort where
  /-- the array after sorting -/
  sort : (ℕ → ℕ → ℤ) → List ℕ → List ℕ
  /-- the result is a permutation of the array -/
  perm : ∀ cmp l, (sort cmp l).Perm l
  /-- the result is sorted, for every comparison that is a total preorder -/
  pairwise : ∀ cmp l, (∀ a b, cmp a b ≤ 0 ∨ cmp b a ≤ 0) →
    (∀ a b c, cmp a b ≤ 0 → cmp b c ≤ 0 → cmp a c ≤ 0) →
    (sort cmp l).Pairwise fun a b => cmp a b ≤ 0

/-- One implementation, to execute the model with. -/
instance : Qsort where
  sort cmp l := l.insertionSort fun a b => cmp a b ≤ 0
  perm _ l := List.perm_insertionSort _ l
  pairwise cmp l htotal htrans :=
    haveI : Std.Total (fun a b => cmp a b ≤ 0) := ⟨htotal⟩
    haveI : IsTrans ℕ (fun a b => cmp a b ≤ 0) := ⟨htrans⟩
    List.pairwise_insertionSort _ l

namespace Queue

variable {σ : Type} (q : Queue σ)

/-! ### Shuffling -/

def swapOrder (order₁ order₂ : ℕ) : Queue σ :=
  { q with order := swapAt q.order order₁ order₂ }

def drawn : Queue σ :=
  { q with rand := q.rand.rest }

def shuffleOrderRange (start stop : ℕ) : Queue σ :=
  forUp start stop (fun i q => q.drawn.swapOrder i (q.rand.pick i stop)) q

def orderPriority (order : ℕ) : ℕ :=
  (q.items (q.order order)).priority

def compareOrderPriority (position₁ position₂ : ℕ) : ℤ :=
  let a := (q.items position₁).priority
  let b := (q.items position₂).priority
  if a = b then 0 else if b < a then -1 else 1

def shuffleOrderFirst (start stop : ℕ) : Queue σ :=
  q.drawn.swapOrder start (q.rand.pick start stop)

def shuffleOrderLast (start stop : ℕ) : Queue σ :=
  q.drawn.swapOrder (stop - 1) (q.rand.pick start stop)

def shuffleRange (start stop : ℕ) : Queue σ :=
  forUp start stop (fun i q => q.drawn.swap i (q.rand.pick i stop)) q

section ByPriority

variable [Qsort]

def sortOrderByPriority (start stop : ℕ) : Queue σ :=
  { q with
    order := writeList q.order start
      (Qsort.sort q.compareOrderPriority (readList q.order start (stop - start))) }

def shuffleGroups (stop : ℕ) : ℕ → ℕ → ℕ → ℕ → Queue σ → Except Fault (Queue σ)
  | 0, _, groupStart, _, q => .ok (q.shuffleOrderRange groupStart stop)
  | n + 1, i, groupStart, groupPriority, q =>
    let priority := q.orderPriority i
    if groupPriority < priority then .error .priorityGroup
    else if priority ≠ groupPriority then
      shuffleGroups stop n (i + 1) i priority (q.shuffleOrderRange groupStart i)
    else shuffleGroups stop n (i + 1) groupStart groupPriority q

def shuffleOrderRangeWithPriority (start stop : ℕ) : Except Fault (Queue σ) :=
  if start = stop then .ok q
  else
    let q := q.sortOrderByPriority start stop
    shuffleGroups stop (stop - (start + 1)) (start + 1) start (q.orderPriority start) q

def shuffleOrder : Except Fault (Queue σ) :=
  q.shuffleOrderRangeWithPriority 0 q.length

end ByPriority

/-! ### Priorities -/

def moveOrder (fromOrder toOrder : ℕ) : Except Fault (Queue σ) := do
  let fromPosition ← q.orderToPosition fromOrder
  -- the entries between the two places move up or down by one
  let order := fun i =>
    if fromOrder ≤ i ∧ i < toOrder then q.order (i + 1)
    else if toOrder < i ∧ i ≤ fromOrder then q.order (i - 1)
    else q.order i
  pure { q with order := update order toOrder fromPosition }

def findPriorityOrder (start priority exclude : ℕ) : ℕ :=
  ((List.range' start (q.length - start)).find? fun order =>
    decide (q.orderPriority order ≤ priority) && order != exclude).getD q.length

def countSamePriority (start priority : ℕ) : ℕ :=
  ((List.range' start (q.length - start)).find? fun order =>
    q.orderPriority order != priority).getD q.length - start

def regroup (order priority : ℕ) (afterOrder : ℤ) : Except Fault (Queue σ) := do
  let beforeOrder := q.findPriorityOrder (unsigned (afterOrder + 1)) priority order
  let newOrder := if order < beforeOrder then beforeOrder - 1 else beforeOrder
  let q ← q.moveOrder order newOrder
  pure (q.shuffleOrderFirst newOrder (newOrder + q.countSamePriority newOrder priority))

def staysPlayed (order oldPriority priority : ℕ) (afterOrder : ℤ) :
    Except Fault Bool :=
  if order < afterOrder then do
    let afterPosition ← q.orderToPosition (unsigned afterOrder)
    let afterPriority := (q.items afterPosition).priority
    pure (decide (afterPriority < oldPriority) || decide (priority ≤ afterPriority))
  else .ok false

def setPriority (position priority : ℕ) (afterOrder : ℤ) :
    Except Fault (Queue σ × Bool) := do
  let item := q.items position
  if q.length ≤ position then .error (.position position)
  else if item.priority = priority then pure (q, false)
  else
    let q := { q with
      items := update q.items position { item with version := q.version, priority := priority } }
    -- don't reorder if not in random mode
    if q.random then
      let order ← q.positionToOrder position
      if 0 ≤ afterOrder ∧ (order : ℤ) = afterOrder then pure (q, true) else
        let stays ← q.staysPlayed order item.priority priority afterOrder
        if stays then pure (q, true) else
          let q ← q.regroup order priority afterOrder
          pure (q, true)
    else pure (q, true)

def rememberPosition (order : ℤ) : Except Fault (Option ℕ) :=
  if 0 ≤ order then some <$> q.orderToPosition (unsigned order) else .ok none

def rememberedOrder : Option ℕ → Except Fault ℤ
  | some position => (fun o : ℕ => (o : ℤ)) <$> q.positionToOrder position
  | none => .ok (-1)

def setPriorityFrom (priority : ℕ) (afterPosition : Option ℕ) :
    ℕ → ℕ → Queue σ → Bool → Except Fault (Queue σ × Bool)
  | 0, _, q, modified => .ok (q, modified)
  | n + 1, i, q, modified => do
    let afterOrder ← q.rememberedOrder afterPosition
    let (q, changed) ← q.setPriority i priority afterOrder
    setPriorityFrom priority afterPosition n (i + 1) q (modified || changed)

def setPriorityRange (start stop priority : ℕ) (afterOrder : ℤ) :
    Except Fault (Queue σ × Bool) := do
  let afterPosition ← q.rememberPosition afterOrder
  setPriorityFrom priority afterPosition (stop - start) start q false

end Queue

end Mpd
