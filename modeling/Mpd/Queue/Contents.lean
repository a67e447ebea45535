import Mpd.Queue.Invariant

/-!
# The play queue as a list

What a client sees of the queue is a list of items, without the bookkeeping of versions, order
numbers and ids in use. On this list, deleting a song erases an entry, and moving a block cuts it
out and inserts it again (`relocate`); the loops over the item array implement just that.
-/

namespace Mpd

open List

/-! ### Relocating a block of a list -/

section Relocate

universe u

variable {α : Type u} {start stop dst : ℕ}

def relocate (l : List α) (start stop dst : ℕ) : List α :=
  let rest := l.take start ++ l.drop (max start stop)
  rest.take dst ++ (l.take stop).drop start ++ rest.drop dst

theorem getElem?_relocate {l : List α} (h : Queue.InRange start stop dst l.length) (p : ℕ) :
    (relocate l start stop dst)[p]? = l[Queue.rangeSource start stop dst p]? := by
  obtain ⟨h₁, h₂, h₃⟩ := h
  have hrest : min start l.length = start := by omega
  have hblock : min stop l.length = stop := by omega
  have hfront : min dst (start + (l.length - stop)) = dst := by omega
  simp only [relocate, getElem?_append, length_append, length_take,
    length_drop, getElem?_take, getElem?_drop, max_eq_right h₁, hrest, hblock,
    hfront, Queue.rangeSource]
  split_ifs <;> first | rfl | omega | (congr 1; omega)

theorem relocate_self (l : List α) (hstop : stop ≤ l.length) : relocate l start stop start = l := by
  rcases Nat.le_total start stop with h | h
  · refine ext_getElem? fun p => ?_
    have hr : Queue.InRange start stop start l.length := ⟨h, hstop, by omega⟩
    have hp : Queue.rangeSource start stop start p = p := by
      unfold Queue.rangeSource
      split_ifs <;> omega
    rw [getElem?_relocate hr, hp]
  · rw [relocate, max_eq_left h, take_append_drop, drop_eq_nil_of_le (by simp; omega),
      append_nil, take_append_drop]

end Relocate

namespace Queue

variable {σ : Type} {q q' : Queue σ}

/-! ### The items of the queue -/

def contents (q : Queue σ) : List (QueueItem σ) :=
  (range q.length).map fun p => (q.items p).stamp 0

@[simp]
theorem length_contents (q : Queue σ) : q.contents.length = q.length := by
  rw [contents, length_map, length_range]

theorem getElem?_contents (q : Queue σ) {p : ℕ} (hp : p < q.length) :
    q.contents[p]? = some ((q.items p).stamp 0) := by
  rw [contents, getElem?_map, getElem?_range hp, Option.map_some]

theorem getElem?_contents_of_le (q : Queue σ) {p : ℕ} (hp : q.length ≤ p) : q.contents[p]? = none :=
  getElem?_eq_none (by rwa [length_contents])

theorem contents_congr (hlen : q'.length = q.length)
    (h : ∀ p < q.length, (q'.items p).stamp 0 = (q.items p).stamp 0) :
    q'.contents = q.contents := by
  rw [contents, contents, hlen]
  exact map_congr_left fun p hp => h p (mem_range.mp hp)

theorem SameSongs.contents_eq (h : q.SameSongs q') : q'.contents = q.contents := by
  rw [h]
  rfl

theorem incrementVersion_contents (q : Queue σ) : q.incrementVersion.contents = q.contents := by
  refine contents_congr q.incrementVersion_length fun p _ => ?_
  obtain ⟨v, hv⟩ := q.incrementVersion_items p
  rw [hv]
  rfl

/-- **Moving a block** relocates it. -/
theorem moveRangeBody_contents (q : Queue σ) {start stop dst : ℕ}
    (h : InRange start stop dst q.length) (hn : q.length < 2147483648) :
    (q.moveRangeBody start stop dst).contents = relocate q.contents start stop dst := by
  have hlen := moveRangeBody_length h hn
  refine ext_getElem? fun p => ?_
  rw [getElem?_relocate (by rwa [length_contents])]
  rcases lt_or_ge p q.length with hp | hp
  · rw [getElem?_contents _ (hlen.symm ▸ hp), getElem?_contents _ (rangeSource_lt h hp),
      moveRangeBody_items q h hn]
    split
    · rfl
    · rw [rangeSource_of_not_mem h.start_le ‹_›]
  · have hsource : q.length ≤ rangeSource start stop dst p := by
      obtain ⟨h₁, h₂, h₃⟩ := h
      unfold rangeSource
      split_ifs <;> omega
    rw [getElem?_contents_of_le _ (hlen.symm ▸ hp), getElem?_contents_of_le _ hsource]

/-- What `queue_move_range` makes of a queue: the block begins at `dst`, the id map and, in random
mode, the order numbers follow their songs. -/
structure Relocated (q : Queue σ) (start stop dst : ℕ) (q' : Queue σ) : Prop where
  contents : q'.contents = relocate q.contents start stop dst
  position : ∀ p < q'.length, q'.positionOfId (q'.items p).id = p
  unused : ∀ id, (∀ p < q'.length, (q'.items p).id ≠ id) → q'.positionOfId id = -1
  order : q.random = true → ∀ o < q.length,
    q'.order o < q'.length ∧ (q'.items (q'.order o)).id = (q.items (q.order o)).id

/-- **Moving a block of songs** is relocating it in the list. -/
theorem Inv.moveRange_relocated (h : q.Inv) {start stop dst : ℕ} (hlt : start < stop)
    (hstop : stop ≤ q.length) (hdst : dst + (stop - start) ≤ q.length) :
    (q.moveRange start stop dst).Succeeds (q.Relocated start stop dst) := by
  have hr : InRange start stop dst q.length := ⟨hlt.le, hstop, hdst⟩
  have hn : q.length < 2147483648 := by have := h.length_lt; omega
  have hlen := moveRangeBody_length hr hn
  have h' := h.moveRangeBody hr
  rw [h.moveRange_eq hr]
  refine .ok ⟨moveRangeBody_contents q hr hn, fun p hp => h'.indexed.positionOfId_eq hp,
    fun id hid => h'.indexed.positionOfId_unused hid, fun hrandom o ho => ?_⟩
  have htarget := rangeTarget_lt hr (h.order_lt ho)
  rw [h.moveRangeBody_order hr hrandom ho, hlen]
  refine ⟨htarget, ?_⟩
  rw [moveRangeBody_id q hr hn, rangeSource_rangeTarget hr.start_le]

theorem relocated_two_songs : ((numbered 5 id true id).moveRange 1 3 3).Succeeds fun q' =>
    (numbered 5 id true id).Relocated 1 3 3 q' ∧
      q'.contents.map QueueItem.song = [0, 3, 4, 1, 2] := by
  have hmove : ((numbered 5 id true id).moveRange 1 3 3).Succeeds _ :=
    (inv_numbered (by decide) id true id).moveRange_relocated (by decide) (by decide) (by decide)
  refine hmove.mono fun q' h => ⟨h, ?_⟩
  rw [h.contents]
  rfl

/-- **Deleting a song** erases it, and nothing else. -/
theorem contents_eq_eraseIdx {p : ℕ} (hp : p < q.length) (hlen : q'.length = q.length - 1)
    (h : ∀ x, (q'.items x).stamp 0 = ((q.deleteItems p).items x).stamp 0) :
    q'.contents = q.contents.eraseIdx p := by
  refine ext_getElem? fun x => ?_
  rw [getElem?_eraseIdx]
  rcases lt_or_ge x (q.length - 1) with hx | hx
  · rw [getElem?_contents _ (hlen.symm ▸ hx), h, deleteItems_items]
    split
    · rw [if_neg (by omega), getElem?_contents _ (by omega)]
      rfl
    · rw [if_pos (by omega), getElem?_contents _ (by omega)]
  · rw [getElem?_contents_of_le _ (hlen.symm ▸ hx), if_neg (by omega),
      getElem?_contents_of_le _ (by omega)]

theorem delete_contents (q : Queue σ) (position : ℕ) :
    (q.delete position).Yields fun q' => q'.contents = q.contents.eraseIdx position := by
  refine .ite (fun _ => .error) fun hlt => ?_
  refine .after fun order => .ok ?_
  exact contents_eq_eraseIdx (not_le.mp hlt) (q.deleteItems_length position) fun _ => rfl

/-- **Adding a song** appends it. -/
theorem contents_appended (q : Queue σ) (song : σ) (priority id : ℕ) :
    (q.appended song priority id).contents = q.contents ++ [⟨song, id, 0, priority⟩] := by
  have hold : ∀ p ∈ range q.length, (q.appended song priority id).items p = q.items p :=
    fun p hp => Function.update_of_ne (mem_range.mp hp).ne _ _
  have hnew : (q.appended song priority id).items q.length = ⟨song, id, q.version, priority⟩ :=
    Function.update_self _ _ _
  rw [contents, contents, show (q.appended song priority id).length = q.length + 1 from rfl,
    range_succ, map_append, map_singleton, hnew]
  congr 1
  exact map_congr_left fun p hp => by rw [hold p hp]

theorem Indexed.positionOfId_append (h : q.Indexed) {l : List (QueueItem σ)} {item : QueueItem σ}
    (hcontents : q.contents = l ++ [item]) : q.positionOfId item.id = l.length := by
  have hlen := congrArg List.length hcontents
  rw [length_contents, length_append, length_singleton] at hlen
  have hlast := q.getElem?_contents (p := l.length) (by omega)
  rw [hcontents, getElem?_concat_length, Option.some.injEq] at hlast
  rw [hlast]
  exact h.positionOfId_eq (by omega)

theorem Indexed.positionOfId_cut (h : q.Indexed) (h' : q'.Indexed) {start stop p : ℕ}
    (hcut : q'.contents = q.contents.take start ++ q.contents.drop stop) (hp : p < q.length)
    (h₁ : start ≤ p) (h₂ : p < stop) : q'.positionOfId (q.items p).id = -1 := by
  refine h'.positionOfId_unused fun p' hp' hid => ?_
  -- the entry comes from another index of the old list
  obtain ⟨k, hk, hitem⟩ : ∃ k, ¬ (start ≤ k ∧ k < stop) ∧
      q.contents[k]? = some ((q'.items p').stamp 0) := by
    have hmem := mem_of_getElem? (q'.getElem?_contents hp')
    rw [hcut, mem_append, mem_iff_getElem?, mem_iff_getElem?] at hmem
    rcases hmem with ⟨k, hk⟩ | ⟨k, hk⟩
    · rw [getElem?_take] at hk
      split at hk
      · exact ⟨k, by omega, hk⟩
      · cases hk
    · rw [getElem?_drop] at hk
      exact ⟨stop + k, by omega, hk⟩
  rcases lt_or_ge k q.length with hlt | hge
  · rw [getElem?_contents _ hlt, Option.some.injEq] at hitem
    obtain rfl := h.injOn hlt hp ((QueueItem.mk.inj hitem).2.1.trans hid)
    exact hk ⟨h₁, h₂⟩
  · rw [getElem?_contents_of_le _ hge] at hitem
    cases hitem

theorem Inv.eraseIdx_inj (h : q.Inv) {i j : ℕ} (hi : i < q.length) (hj : j < q.length)
    (heq : q.contents.eraseIdx i = q.contents.eraseIdx j) : i = j := by
  have hne : ∀ {i j : ℕ}, i < j → j < q.length →
      q.contents.eraseIdx i ≠ q.contents.eraseIdx j := by
    intro i j hij hj heq
    have hget := congrArg (fun l => l[i]?) heq
    simp only [getElem?_eraseIdx, lt_irrefl, if_false, if_pos hij] at hget
    rw [getElem?_contents _ (by omega), getElem?_contents _ (by omega), Option.some.injEq] at hget
    have := h.indexed.injOn (by omega) (by omega) (QueueItem.mk.inj hget).2.1
    omega
  rcases lt_trichotomy i j with hlt | heq' | hgt
  · exact absurd heq (hne hlt hj)
  · exact heq'
  · exact absurd heq.symm (hne hgt hi)

end Queue

end Mpd
