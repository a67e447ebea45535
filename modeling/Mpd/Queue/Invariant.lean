import Mpd.Queue.Items
import Mpd.Queue.Shuffle

/-!
# The play queue: the invariant of the three index structures

`q.Inv` ties the arrays of a queue together: the order array is a permutation of the live
positions, the id map is the inverse of the item list, and in normal mode order numbers are
positions. Every operation of the queue keeps it. Operations that only change the order array
keep it because they rearrange (`Inv.of_rearranged`); those that move songs are specified by
where each song comes from.
-/

namespace Mpd

open Nat

open Function (update)
open Arrangement

namespace Queue

variable {σ : Type} {q q' : Queue σ} {p o : ℕ}

/-- What a client configures: no operation on the songs changes it. -/
structure Settings where
  maxLength : ℕ
  repeat_ : Bool
  single : Bool
  consume : Bool
  random : Bool
  deriving DecidableEq

def settings (q : Queue σ) : Settings where
  maxLength := q.maxLength
  repeat_ := q.repeat_
  single := q.single
  consume := q.consume
  random := q.random

theorem maxLength_eq (h : q'.settings = q.settings) : q'.maxLength = q.maxLength :=
  congrArg Settings.maxLength h

theorem random_eq (h : q'.settings = q.settings) : q'.random = q.random :=
  congrArg Settings.random h

theorem nextOrder_eq (h : q'.settings = q.settings) (hlen : q'.length = q.length) (o : ℕ) :
    q'.nextOrder o = q.nextOrder o := by
  have h₁ : q'.repeat_ = q.repeat_ := congrArg Settings.repeat_ h
  have h₂ : q'.single = q.single := congrArg Settings.single h
  have h₃ : q'.consume = q.consume := congrArg Settings.consume h
  rw [nextOrder, nextOrder, h₁, h₂, h₃, hlen]

theorem nextOrder_of_lt (hmode : ¬ (q.single = true ∧ q.repeat_ = true ∧ q.consume = false)) {o : ℕ}
    (ho : o + 1 < q.length) : q.nextOrder o = o + 1 := by
  have hsingle : ¬ (q.single && q.repeat_ && !q.consume) = true := by
    simpa only [Bool.and_eq_true, Bool.not_eq_true', and_assoc] using hmode
  rw [nextOrder, if_neg hsingle, if_pos ho]

theorem nextOrder_last (hmode : ¬ (q.single = true ∧ q.repeat_ = true ∧ q.consume = false)) {o : ℕ}
    (ho : q.length ≤ o + 1) (hrepeat : q.repeat_ = true) (hpos : 0 < o) : q.nextOrder o = 0 := by
  have hsingle : ¬ (q.single && q.repeat_ && !q.consume) = true := by
    simpa only [Bool.and_eq_true, Bool.not_eq_true', and_assoc] using hmode
  rw [nextOrder, if_neg hsingle, if_neg ho.not_gt, if_pos (by simp [hrepeat, hpos])]

theorem mode_iff (h : q'.settings = q.settings) :
    (q'.single = true ∧ q'.repeat_ = true ∧ q'.consume = false) ↔
      (q.single = true ∧ q.repeat_ = true ∧ q.consume = false) := by
  have h₁ : q'.repeat_ = q.repeat_ := congrArg Settings.repeat_ h
  have h₂ : q'.single = q.single := congrArg Settings.single h
  have h₃ : q'.consume = q.consume := congrArg Settings.consume h
  rw [h₁, h₂, h₃]

/-- The queue is consistent. -/
structure Inv (q : Queue σ) : Prop where
  idSpace_lt : q.idSpace < 4294967296
  length_le : q.length ≤ q.maxLength
  order_bijOn : Set.BijOn q.order (Set.Iio q.length) (Set.Iio q.length)
  indexed : q.Indexed
  order_eq : q.random = false → ∀ i < q.length, q.order i = i

/-! ### Access -/

theorem orderToPosition_eq (ho : o < q.length) : q.orderToPosition o = .ok (q.order o) :=
  if_pos ho

theorem get_eq (hp : p < q.length) : q.get p = .ok (q.items p).song :=
  if_pos hp

namespace Inv

theorem length_lt (h : q.Inv) : q.length < 1073741824 := by
  have h₁ := h.idSpace_lt
  have h₂ := h.length_le
  rw [idSpace, queueHashMult] at h₁
  omega

theorem order_lt (h : q.Inv) (ho : o < q.length) : q.order o < q.length :=
  h.order_bijOn.mapsTo ho

theorem order_inj (h : q.Inv) {o' : ℕ} (ho : o < q.length) (ho' : o' < q.length)
    (heq : q.order o = q.order o') : o = o' :=
  h.order_bijOn.injOn ho ho' heq

theorem exists_order (h : q.Inv) (hp : p < q.length) : ∃ o < q.length, q.order o = p :=
  h.order_bijOn.surjOn hp

theorem positionToOrder_order (h : q.Inv) (ho : o < q.length) :
    q.positionToOrder (q.order o) = .ok o := by
  have hfind : (List.range q.length).find? (fun i => q.order i == q.order o) = some o := by
    rw [List.find?_range_eq_some]
    refine ⟨beq_self_eq_true _, List.mem_range.mpr ho, fun j hj => ?_⟩
    rw [Bool.not_eq_true', beq_eq_false_iff_ne]
    exact fun heq => hj.ne (h.order_inj (hj.trans ho) ho heq)
  rw [positionToOrder, hfind]

theorem positionToOrder_succeeds (h : q.Inv) (hp : p < q.length) :
    (q.positionToOrder p).Succeeds fun o => o < q.length ∧ q.order o = p := by
  obtain ⟨o, ho, rfl⟩ := h.exists_order hp
  exact ⟨o, h.positionToOrder_order ho, ho, rfl⟩

theorem getOrder_eq (h : q.Inv) (ho : o < q.length) :
    q.getOrder o = .ok (q.items (q.order o)).song := by
  rw [getOrder, orderToPosition_eq ho, Except.ok_bind, get_eq (h.order_lt ho)]

end Inv

/-! ### Changes of the order array -/

theorem Indexed.congr (h : q.Indexed) (hmax : q'.maxLength = q.maxLength)
    (hlen : q'.length = q.length) (hmap : q'.idToPosition = q.idToPosition)
    (hid : ∀ p, (q'.items p).id = (q.items p).id) : q'.Indexed := by
  have hspace : q'.idSpace = q.idSpace := by rw [idSpace, idSpace, hmax]
  refine ⟨?_, ?_, ?_⟩
  · rw [hlen, hspace]
    exact fun p hp => hid p ▸ h.id_lt p hp
  · rw [hspace, hlen, hmap]
    exact fun id hlt p => hid p ▸ h.position_iff id hlt p
  · rw [hspace, hlen, hmap]
    exact fun id hlt hne => h.unused id hlt fun p hp => hid p ▸ hne p hp

theorem Inv.congr (h : q.Inv) (hmax : q'.maxLength = q.maxLength)
    (hlen : q'.length = q.length) (hmap : q'.idToPosition = q.idToPosition)
    (hid : ∀ p, (q'.items p).id = (q.items p).id)
    (hbij : Set.BijOn q'.order (Set.Iio q.length) (Set.Iio q.length))
    (hord : q'.random = false → ∀ i < q.length, q'.order i = i) : q'.Inv where
  idSpace_lt := by
    rw [idSpace, hmax]
    exact h.idSpace_lt
  length_le := by
    rw [hlen, hmax]
    exact h.length_le
  order_bijOn := by rwa [hlen]
  indexed := h.indexed.congr hmax hlen hmap hid
  order_eq := by rwa [hlen]

section

variable (h : q.Inv) (hrandom : q.random = true)
include h hrandom

theorem Inv.of_rearranged (hsame : SameSongs q q')
    (hre : Rearranged 0 q.length q.order q'.order) : q'.Inv := by
  have hrandom' : q'.random = true := by rw [hsame]; exact hrandom
  refine h.congr (by rw [hsame]; rfl) (by rw [hsame]; rfl) (by rw [hsame]; rfl) (fun p => ?_)
    (hre.bijOn le_rfl h.order_bijOn) fun hf => absurd (hrandom'.symm.trans hf) (by decide)
  rw [hsame]
  rfl

theorem Inv.swapOrder {o₁ o₂ : ℕ} (h₁ : o₁ < q.length)
    (h₂ : o₂ < q.length) : (q.swapOrder o₁ o₂).Inv :=
  h.of_rearranged hrandom (sameSongs_withOrder q (_, q.rand))
    (rearranged_swapAt (Nat.zero_le _) h₁ (Nat.zero_le _) h₂)

theorem Inv.shuffleOrderRange {start stop : ℕ}
    (h₁ : start ≤ stop) (h₂ : stop ≤ q.length) : (q.shuffleOrderRange start stop).Inv := by
  refine h.of_rearranged hrandom ?_ ((rearranged_shuffleOrderRange h₁).mono (zero_le _) h₂)
  rw [shuffleOrderRange_eq]
  exact sameSongs_withOrder q _

theorem Inv.shuffleOrderFirst {start stop : ℕ}
    (h₁ : start < stop) (h₂ : stop ≤ q.length) : (q.shuffleOrderFirst start stop).Inv := by
  have hlt := q.rand.pick_lt h₁
  exact h.of_rearranged hrandom (sameSongs_withOrder q (_, q.rand.rest))
    (rearranged_swapAt (zero_le _) (by omega) (zero_le _) (by omega))

theorem Inv.shuffleOrderLast {start stop : ℕ}
    (h₁ : start < stop) (h₂ : stop ≤ q.length) : (q.shuffleOrderLast start stop).Inv := by
  have hlt := q.rand.pick_lt h₁
  exact h.of_rearranged hrandom (sameSongs_withOrder q (_, q.rand.rest))
    (rearranged_swapAt (zero_le _) (by omega) (zero_le _) (by omega))

end

theorem Inv.restoreOrder (h : q.Inv) (hmax : q'.maxLength = q.maxLength)
    (hlen : q'.length = q.length) (hmap : q'.idToPosition = q.idToPosition)
    (hid : ∀ p, (q'.items p).id = (q.items p).id) : q'.restoreOrder.Inv := by
  have hord : ∀ i < q.length, q'.restoreOrder.order i = i := fun i hi =>
    if_pos (hlen.symm ▸ hi)
  refine h.congr hmax hlen hmap hid ?_ fun _ => hord
  refine bijOn_of_injOn (fun i hi => ?_) fun i hi j hj heq => ?_
  · rwa [hord i hi]
  · rwa [hord i hi, hord j hj] at heq

/-! ### Versions -/

theorem incrementVersion_length (q : Queue σ) : q.incrementVersion.length = q.length := by
  rw [incrementVersion]
  split <;> rfl

theorem incrementVersion_order (q : Queue σ) : q.incrementVersion.order = q.order := by
  rw [incrementVersion]
  split <;> rfl

theorem incrementVersion_settings (q : Queue σ) : q.incrementVersion.settings = q.settings := by
  rw [incrementVersion]
  split <;> rfl

theorem incrementVersion_items (q : Queue σ) (p : ℕ) :
    ∃ v, q.incrementVersion.items p = (q.items p).stamp v := by
  rw [incrementVersion]
  split
  · dsimp only
    split
    · exact ⟨0, rfl⟩
    · exact ⟨_, rfl⟩
  · exact ⟨_, rfl⟩

theorem incrementVersion_id (q : Queue σ) (p : ℕ) :
    (q.incrementVersion.items p).id = (q.items p).id := by
  obtain ⟨v, hv⟩ := q.incrementVersion_items p
  rw [hv, QueueItem.stamp]

theorem Inv.incrementVersion (h : q.Inv) : q.incrementVersion.Inv := by
  refine h.congr (maxLength_eq q.incrementVersion_settings) q.incrementVersion_length ?_
    q.incrementVersion_id ?_ ?_
  · rw [Queue.incrementVersion]
    split <;> rfl
  · rw [incrementVersion_order]
    exact h.order_bijOn
  · rw [incrementVersion_order, random_eq q.incrementVersion_settings]
    exact h.order_eq

/-! ### Adding and exchanging songs -/

theorem Inv.appended (h : q.Inv) (hfull : q.length < q.maxLength) (song : σ) (priority : ℕ)
    {id : ℕ} (hid : id < q.idSpace) (hunused : q.idToPosition id = -1) :
    (q.appended song priority id).Inv := by
  have hnew : (q.appended song priority id).order q.length = q.length := Function.update_self ..
  have hold : ∀ i < q.length, (q.appended song priority id).order i = q.order i :=
    fun i hi => Function.update_of_ne hi.ne _ _
  refine ⟨h.idSpace_lt, hfull, bijOn_of_injOn (fun i hi => ?_) (fun i hi j hj heq => ?_),
    h.indexed.appended song priority hid hunused, fun hrandom i hi => ?_⟩
  · rcases Nat.lt_succ_iff_lt_or_eq.mp hi with hlt | rfl
    · rw [hold i hlt]
      exact (h.order_lt hlt).trans (lt_succ_self _)
    · rwa [hnew]
  · rcases Nat.lt_succ_iff_lt_or_eq.mp hi with hi | rfl <;>
      rcases Nat.lt_succ_iff_lt_or_eq.mp hj with hj | rfl
    · rw [hold i hi, hold j hj] at heq
      exact h.order_inj hi hj heq
    · rw [hold i hi, hnew] at heq
      exact absurd heq (h.order_lt hi).ne
    · rw [hold j hj, hnew] at heq
      exact absurd heq.symm (h.order_lt hj).ne
    · rfl
  · rcases Nat.lt_succ_iff_lt_or_eq.mp hi with hlt | rfl
    · rw [hold i hlt]
      exact h.order_eq hrandom i hlt
    · exact hnew

theorem Inv.append_succeeds (h : q.Inv) (hfull : q.length < q.maxLength) (song : σ)
    (priority : ℕ) : (q.append song priority).Succeeds fun r =>
      r.1 = q.appended song priority r.2 ∧ r.1.Inv := by
  refine (h.indexed.append_succeeds h.idSpace_lt hfull song priority).mono ?_
  rintro ⟨q', id⟩ ⟨heq, hid, hunused⟩
  refine ⟨heq, ?_⟩
  rw [heq]
  exact h.appended hfull song priority hid hunused

theorem Inv.swap (h : q.Inv) {p₁ p₂ : ℕ} (h₁ : p₁ < q.length) (h₂ : p₂ < q.length) :
    (q.swap p₁ p₂).Inv :=
  ⟨h.idSpace_lt, h.length_le, h.order_bijOn, h.indexed.swap h₁ h₂, h.order_eq⟩

/-! ### Deleting songs -/

def deleteTarget (position p : ℕ) : ℕ :=
  if position < p then p - 1 else p

def deleted (q : Queue σ) (position order : ℕ) : Queue σ :=
  (q.deleteItems position).deleteOrder position order

theorem deleted_length (q : Queue σ) (p o : ℕ) : (q.deleted p o).length = q.length - 1 :=
  deleteItems_length q p

theorem deleted_order (q : Queue σ) (p o : ℕ) {i : ℕ} (hi : i < q.length - 1) :
    (q.deleted p o).order i = deleteTarget p (q.order (deleteSource o i)) := by
  have hlen := deleteItems_length q p
  have hord : (q.deleteItems p).order = q.order := by rw [deleteItems_eq]
  have hcut : (if o ≤ i then q.order (i + 1) else q.order i) = q.order (deleteSource o i) := by
    unfold deleteSource
    split_ifs <;> first | rfl | omega
  simp only [deleted, deleteOrder, mapOrder, hlen, hord, hi, if_true, and_true, hcut, deleteTarget]

theorem deleted_settings (q : Queue σ) (p o : ℕ) : (q.deleted p o).settings = q.settings := by
  rw [deleted, deleteItems_eq]
  rfl

theorem Inv.delete_eq (h : q.Inv) (ho : o < q.length) :
    q.delete (q.order o) = .ok (q.deleted (q.order o) o) := by
  rw [delete, if_neg (h.order_lt ho).not_ge, h.positionToOrder_order ho]
  rfl

theorem Inv.deleted (h : q.Inv) (ho : o < q.length) : (q.deleted (q.order o) o).Inv := by
  have hp := h.order_lt ho
  have hsrc : ∀ i < q.length - 1, deleteSource o i < q.length ∧ deleteSource o i ≠ o := by
    intro i hi
    unfold deleteSource
    split <;> omega
  have hne : ∀ i < q.length - 1, q.order (deleteSource o i) ≠ q.order o := fun i hi heq =>
    (hsrc i hi).2 (h.order_inj (hsrc i hi).1 ho heq)
  have hlen := deleted_length q (q.order o) o
  refine ⟨?_, ?_, ?_, ?_, fun hrandom i hi => ?_⟩
  · rw [idSpace, maxLength_eq (deleted_settings q _ _)]
    exact h.idSpace_lt
  · rw [hlen, maxLength_eq (deleted_settings q _ _)]
    exact (sub_le _ _).trans h.length_le
  · rw [hlen]
    refine bijOn_of_injOn (fun i hi => ?_) fun i hi j hj heq => ?_
    · rw [deleted_order q _ _ hi, deleteTarget]
      have h₁ := h.order_lt (hsrc i hi).1
      have h₂ := hne i hi
      split <;> omega
    · rw [deleted_order q _ _ hi, deleted_order q _ _ hj] at heq
      have h₁ := hne i hi
      have h₂ := hne j hj
      have heq' : deleteSource o i = deleteSource o j := by
        refine h.order_inj (hsrc i hi).1 (hsrc j hj).1 ?_
        unfold deleteTarget at heq
        split at heq <;> split at heq <;> omega
      unfold deleteSource at heq'
      split at heq' <;> split at heq' <;> omega
  · exact (h.indexed.deleteItems hp).congr rfl rfl rfl fun _ => rfl
  · rw [hlen] at hi
    rw [random_eq (deleted_settings q _ _)] at hrandom
    rw [deleted_order q _ _ hi, h.order_eq hrandom _ (hsrc i hi).1, h.order_eq hrandom o ho]
    unfold deleteTarget deleteSource
    split <;> split <;> omega

/-! ### Where songs go -/

theorem deleteSource_deleteTarget {x : ℕ} (h : x ≠ p) : deleteSource p (deleteTarget p x) = x := by
  unfold deleteTarget
  split_ifs <;> unfold deleteSource <;> split_ifs <;> omega

theorem deleteTarget_lt {n x : ℕ} (hx : x < n) (hp : p < n) (h : x ≠ p) :
    deleteTarget p x < n - 1 := by
  unfold deleteTarget
  split_ifs <;> omega

theorem deleteItems_deleteTarget (q : Queue σ) {x : ℕ} (hx : x < q.length) (h : x ≠ p) :
    ((q.deleteItems p).items (deleteTarget p x)).stamp 0 = (q.items x).stamp 0 := by
  rw [deleteItems_items]
  rcases lt_or_gt_of_ne h with hlt | hgt
  · have htarget : deleteTarget p x = x := if_neg (by omega)
    rw [htarget, if_neg (by omega)]
  · have htarget : deleteTarget p x = x - 1 := if_pos hgt
    rw [htarget, if_pos (by omega), Nat.sub_add_cancel (by omega)]
    rfl

theorem deleteItems_id (q : Queue σ) {x : ℕ} (hx : x < q.length) (h : x ≠ p) :
    ((q.deleteItems p).items (deleteTarget p x)).id = (q.items x).id :=
  (QueueItem.mk.inj (q.deleteItems_deleteTarget hx h)).2.1

theorem deleted_order_deleteTarget (q : Queue σ) {c : ℕ} (hc : c < q.length) (ho : o < q.length)
    (h : c ≠ o) : (q.deleted p o).order (deleteTarget o c) = deleteTarget p (q.order c) := by
  rw [deleted_order q p o (deleteTarget_lt hc ho h), deleteSource_deleteTarget h]

theorem exists_deleteTarget_eq {n i : ℕ} (hi : i < n - 1) (p : ℕ) :
    ∃ x < n, x ≠ p ∧ deleteTarget p x = i := by
  refine ⟨deleteSource p i, ?_⟩
  unfold deleteTarget deleteSource
  split_ifs <;> omega

theorem deleteTarget_lt_iff {x y : ℕ} (hx : x ≠ p) (hy : y ≠ p) :
    deleteTarget p x < deleteTarget p y ↔ x < y := by
  unfold deleteTarget
  split_ifs <;> omega

theorem mem_deleteTarget_iff {D : ℕ → Prop} (hmax : ∀ x, D x → x ≤ p) {y : ℕ} (hy : y ≠ p) :
    (D (deleteTarget p y) ∧ deleteTarget p y ≠ p) ↔ D y := by
  unfold deleteTarget
  split
  · constructor
    · rintro ⟨hD, hne⟩
      have := hmax _ hD
      omega
    · intro hD
      have := hmax _ hD
      omega
  · exact ⟨fun h => h.1, fun h => ⟨h, hy⟩⟩

/-! ### Clearing the queue -/

theorem clear_idToPosition (q : Queue σ) (h : q.Indexed) {id : ℕ} (hid : id < q.idSpace) :
    q.clear.idToPosition id = -1 := by
  have hloop : ∀ n ≤ q.length, ∀ id < q.idSpace,
      (forUp 0 n (fun i m => update m (q.items i).id (-1)) q.idToPosition) id =
        if ∃ i < n, (q.items i).id = id then -1 else q.idToPosition id := by
    intro n hn
    refine forUp_induction (motive := fun n (m : ℕ → ℤ) => ∀ id < q.idSpace,
      m id = if ∃ i < n, (q.items i).id = id then -1 else q.idToPosition id)
      (zero_le n) (fun id _ => by simp) fun n m _ _ ih id hid => ?_
    rcases eq_or_ne id (q.items n).id with rfl | hne
    · rw [Function.update_self, if_pos ⟨n, lt_succ_self n, rfl⟩]
    · rw [Function.update_of_ne hne, ih id hid]
      refine if_congr ⟨?_, ?_⟩ rfl rfl
      · rintro ⟨i, hi, heq⟩
        exact ⟨i, lt_succ_of_lt hi, heq⟩
      · rintro ⟨i, hi, heq⟩
        rcases Nat.lt_succ_iff_lt_or_eq.mp hi with hlt | rfl
        · exact ⟨i, hlt, heq⟩
        · exact absurd heq.symm hne
  refine (hloop q.length le_rfl id hid).trans ?_
  split
  · rfl
  · rename_i hne
    push Not at hne
    exact h.unused id hid hne

theorem Inv.clear (h : q.Inv) : q.clear.Inv := by
  refine ⟨h.idSpace_lt, zero_le _, bijOn_of_injOn ?_ ?_, ⟨?_, fun id hid p => ?_, ?_⟩, ?_⟩
  · exact fun i hi => absurd hi (not_lt_zero i)
  · exact fun i hi => absurd hi (not_lt_zero i)
  · exact fun i hi => absurd hi (not_lt_zero i)
  · rw [clear_idToPosition q h.indexed hid]
    exact ⟨fun heq => by omega, fun hp => absurd hp.1 (not_lt_zero p)⟩
  · exact fun id hid _ => clear_idToPosition q h.indexed hid
  · exact fun _ i hi => absurd hi (not_lt_zero i)

/-! ### Moving songs -/

section Range

variable {start stop dst : ℕ} (h : InRange start stop dst q.length)
include h

theorem bijOn_rangeTarget :
    Set.BijOn (rangeTarget start stop dst) (Set.Iio q.length) (Set.Iio q.length) := by
  refine bijOn_of_injOn (fun i hi => rangeTarget_lt h hi) fun i _ j _ heq => ?_
  have hsource := congrArg (rangeSource start stop dst) heq
  rwa [rangeSource_rangeTarget h.start_le, rangeSource_rangeTarget h.start_le] at hsource

theorem moveRangeBody_length (hn : q.length < 2147483648) :
    (q.moveRangeBody start stop dst).length = q.length := by
  rw [moveRangeBody_eq q h hn]

theorem moveRangeBody_settings (hn : q.length < 2147483648) :
    (q.moveRangeBody start stop dst).settings = q.settings := by
  rw [moveRangeBody_eq q h hn]
  rfl

theorem Inv.moveRangeBody_order (hq : q.Inv) (hrandom : q.random = true) (ho : o < q.length) :
    (q.moveRangeBody start stop dst).order o = rangeTarget start stop dst (q.order o) := by
  have hn : q.length < 2147483648 := by have := hq.length_lt; omega
  rw [moveRangeBody_eq q h hn, hrandom]
  simp only [if_true, ho]
  exact rangeOrderEntry_eq h hn (hq.order_lt ho)

theorem moveRangeBody_order_of_not_random (hn : q.length < 2147483648)
    (hrandom : q.random = false) :
    (q.moveRangeBody start stop dst).order = q.order := by
  rw [moveRangeBody_eq q h hn, hrandom]
  rfl

theorem Inv.moveRangeBody (hq : q.Inv) : (q.moveRangeBody start stop dst).Inv := by
  have hn : q.length < 2147483648 := by have := hq.length_lt; omega
  have hlen := moveRangeBody_length h hn
  have hset := moveRangeBody_settings h hn
  refine ⟨?_, ?_, ?_, hq.indexed.moveRangeBody h hn, ?_⟩
  · rw [idSpace, maxLength_eq hset]
    exact hq.idSpace_lt
  · rw [hlen, maxLength_eq hset]
    exact hq.length_le
  · rw [hlen]
    cases hrandom : q.random with
    | true =>
      exact ((bijOn_rangeTarget h).comp hq.order_bijOn).congr fun i hi =>
        (hq.moveRangeBody_order h hrandom hi).symm
    | false =>
      rw [moveRangeBody_order_of_not_random h hn hrandom]
      exact hq.order_bijOn
  · rw [random_eq hset, hlen]
    intro hrandom
    rw [moveRangeBody_order_of_not_random h hn hrandom]
    exact hq.order_eq hrandom

theorem Inv.moveRange_eq (hq : q.Inv) :
    q.moveRange start stop dst = .ok (q.moveRangeBody start stop dst) :=
  moveRange_eq_ok q h (by have := hq.length_lt; omega)

end Range

theorem Inv.move (hq : q.Inv) {src dst : ℕ} (hsrc : src < q.length) (hdst : dst < q.length) :
    (q.move src dst).Inv := by
  have hn := hq.length_lt
  rw [move_eq_moveRangeBody q (by omega) (by omega) fun i hi => (hq.order_lt hi).trans (by omega)]
  exact hq.moveRangeBody ⟨by omega, by omega, by omega⟩

/-! ### Shuffling songs -/

/-- What `queue_shuffle_range` has done after the rounds below `i`. -/
structure Shuffled (q : Queue σ) (start stop i : ℕ) (q' : Queue σ) : Prop where
  inv : q.Inv → q'.Inv
  frame : q' = { q with
    items := q'.items
    idToPosition := q'.idToPosition
    rand := q'.rand }
  source : ∃ e : Equiv.Perm ℕ, FixesOutside start stop e ∧
    ∀ p, (q'.items p).stamp 0 = (q.items (e p)).stamp 0
  stamped : ∀ p, start ≤ p → p < i → (q'.items p).version = q.version
  untouched : ∀ p, ¬ (start ≤ p ∧ p < stop) → q'.items p = q.items p
  version : ∀ p, (q'.items p).version = q.version ∨ q'.items p = q.items p

theorem Shuffled.refl {start stop i : ℕ} (h : i ≤ start) : Shuffled q start stop i q :=
  ⟨id, rfl, ⟨_, .refl, fun _ => rfl⟩, fun p _ _ => by omega, fun _ _ => rfl, fun _ => .inr rfl⟩

theorem shuffled_shuffleRange (q : Queue σ) (start : ℕ) {stop : ℕ} (h₂ : stop ≤ q.length) :
    Shuffled q start stop stop (q.shuffleRange start stop) := by
  rcases lt_or_ge stop start with hlt | h₁
  · rw [shuffleRange, forUp_of_le hlt.le]
    exact .refl hlt.le
  refine forUp_induction (motive := fun i q' => Shuffled q start stop i q') h₁ (.refl le_rfl) ?_
  intro i q' hi₁ hi₂ hq'
  obtain ⟨e, he, hsrc⟩ := hq'.source
  have hlen : q'.length = q.length := by rw [hq'.frame]
  have hver : q'.version = q.version := by rw [hq'.frame]
  have hle := q'.rand.le_pick i stop
  have hlt := q'.rand.pick_lt hi₂
  set j := q'.rand.pick i stop
  have hswap : FixesOutside start stop (Equiv.swap i j) :=
    .swap hi₁ hi₂ (by omega) hlt
  have hitems := swap_items q'.drawn i j
  refine ⟨fun hq => ?_, ?_, ⟨e * Equiv.swap i j, he.mul hswap, fun p => ?_⟩,
    fun p hp₁ hp₂ => ?_, fun p hp => ?_, fun p => ?_⟩
  · have hinv : q'.drawn.Inv := (hq'.inv hq).congr rfl rfl rfl (fun _ => rfl)
      (hq'.inv hq).order_bijOn (hq'.inv hq).order_eq
    exact hinv.swap (by show i < q'.length; omega) (by show j < q'.length; omega)
  · rw [hq'.frame]
    rfl
  · rw [Equiv.Perm.mul_apply, ← hsrc, hitems]
    split
    · rfl
    · rw [Equiv.swap_apply_of_ne_of_ne] <;> tauto
  · rw [hitems]
    split
    · exact hver
    · exact hq'.stamped p hp₁ (by omega)
  · rw [hitems, if_neg (by omega)]
    exact hq'.untouched p hp
  · rw [hitems]
    split
    · exact .inl hver
    · exact hq'.version p

/-! ### A full queue -/

theorem inv_numbered {n : ℕ} (h : n * 4 < 4294967296) (priority : ℕ → ℕ) (random : Bool)
    (rand : Draws) : (numbered n priority random rand).Inv where
  idSpace_lt := h
  length_le := le_rfl
  order_bijOn := Set.bijOn_id _
  indexed := by
    refine ⟨fun p hp => ?_, fun id _ p => ?_, fun id _ hunused => ?_⟩
    · show p < n * 4
      have : p < n := hp
      omega
    · show (if id < n then (id : ℤ) else -1) = p ↔ p < n ∧ p = id
      split <;> omega
    · exact if_neg fun hlt => hunused id hlt rfl
  order_eq := fun _ _ _ => rfl

end Queue

end Mpd
