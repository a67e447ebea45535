import Mpd.General.Writes
import Mpd.Queue.Basic

/-!
# The play queue: where the songs are

`Indexed q` says that the id map is the inverse of the item list: it sends the id of the song
at a position to that position, and every other id to `-1`. The operations that move songs are
specified by the *source* of each position afterwards, and keep the map an inverse
(`Indexed.of_source`).

A loop over `queue_move_song_to` never reads a position it has already overwritten; it then
places the items of the original queue (`moveSongs_eq_placeAll`), and where everything ends up
follows from the list of moves alone.
-/

namespace Mpd

open List Nat

open Function (update)

namespace Queue

variable {σ : Type} {q q' : Queue σ} {p : ℕ}

/-! ### Placing items -/

theorem placeAll_eq (q : Queue σ) (l : List (QueueItem σ × ℕ)) : q.placeAll l = { q with
      items := writeAll q.items (l.map fun m => (m.2, m.1.stamp q.version))
      idToPosition := writeAll q.idToPosition (l.map fun m => (m.1.id, (m.2 : ℤ))) } := by
  induction l generalizing q with
  | nil => rfl
  | cons m l ih => exact ih (q.place m.1 m.2)

theorem placeAll_append (q : Queue σ) (l l' : List (QueueItem σ × ℕ)) :
    q.placeAll (l ++ l') = (q.placeAll l).placeAll l' :=
  foldl_append

theorem moveSongs_eq_placeAll (q : Queue σ) {l : List (ℕ × ℕ)}
    (h : l.Pairwise fun m m' => m'.1 ≠ m.2) :
    q.moveSongs l = q.placeAll (l.map fun m => (q.items m.1, m.2)) := by
  induction l generalizing q with
  | nil => rfl
  | cons m l ih =>
    obtain ⟨hm, hl⟩ := pairwise_cons.mp h
    have hitems : (l.map fun m' => ((q.moveSongTo m.1 m.2).items m'.1, m'.2)) =
        l.map fun m' => (q.items m'.1, m'.2) :=
      map_congr_left fun m' hm' => by
        simp only [moveSongTo, place, Function.update_of_ne (hm m' hm')]
    calc q.moveSongs (m :: l) = (q.moveSongTo m.1 m.2).moveSongs l := rfl
      _ = (q.moveSongTo m.1 m.2).placeAll (l.map fun m' => (q.items m'.1, m'.2)) := by
        rw [ih _ hl, hitems]
      _ = q.placeAll ((m :: l).map fun m' => (q.items m'.1, m'.2)) := rfl

section

variable (q : Queue σ) (l : List (ℕ × ℕ))

theorem moveSongs_frame : q.moveSongs l = { q with
      items := (q.moveSongs l).items
      idToPosition := (q.moveSongs l).idToPosition } := by
  induction l generalizing q with
  | nil => rfl
  | cons m l ih => exact ih (q.moveSongTo m.1 m.2)

@[simp]
theorem moveSongs_length : (q.moveSongs l).length = q.length := by
  rw [moveSongs_frame]

@[simp]
theorem moveSongs_order : (q.moveSongs l).order = q.order := by
  rw [moveSongs_frame]

end

section Moves

variable {l : List (ℕ × ℕ)}

theorem placeAll_items_of_mem {x : ℕ} (hmem : (x, p) ∈ l) (huniq : ∀ m ∈ l, m.2 = p → m.1 = x) :
    (q.placeAll (l.map fun m => (q.items m.1, m.2))).items p = (q.items x).stamp q.version := by
  rw [placeAll_eq, map_map]
  refine writeAll_map_of_mem (k := fun m : ℕ × ℕ => m.2)
    (y := fun m => (q.items m.1).stamp q.version) hmem fun m hm hp => ?_
  rw [huniq m hm hp]

theorem placeAll_items_of_forall_ne (h : ∀ m ∈ l, m.2 ≠ p) :
    (q.placeAll (l.map fun m => (q.items m.1, m.2))).items p = q.items p := by
  rw [placeAll_eq, map_map]
  exact writeAll_map_of_forall_ne h

theorem placeAll_idToPosition_of_mem {x : ℕ} (hmem : (x, p) ∈ l)
    (huniq : ∀ m ∈ l, (q.items m.1).id = (q.items x).id → m.2 = p) :
    (q.placeAll (l.map fun m => (q.items m.1, m.2))).idToPosition (q.items x).id = p := by
  rw [placeAll_eq, map_map, map_map]
  refine writeAll_map_of_mem hmem fun m hm hid => ?_
  rw [huniq m hm hid]

theorem placeAll_idToPosition_of_forall_ne {id : ℕ} (h : ∀ m ∈ l, (q.items m.1).id ≠ id) :
    (q.placeAll (l.map fun m => (q.items m.1, m.2))).idToPosition id = q.idToPosition id := by
  rw [placeAll_eq, map_map, map_map]
  exact writeAll_map_of_forall_ne h

end Moves

/-! ### The id map -/

/-- The id map is the inverse of the item list. -/
structure Indexed (q : Queue σ) : Prop where
  id_lt : ∀ p < q.length, (q.items p).id < q.idSpace
  position_iff : ∀ id < q.idSpace, ∀ p : ℕ,
    q.idToPosition id = p ↔ p < q.length ∧ (q.items p).id = id
  unused : ∀ id < q.idSpace, (∀ p < q.length, (q.items p).id ≠ id) → q.idToPosition id = -1

namespace Indexed

theorem idToPosition_eq (h : q.Indexed) (hp : p < q.length) : q.idToPosition (q.items p).id = p :=
  (h.position_iff _ (h.id_lt p hp) p).mpr ⟨hp, rfl⟩

theorem positionOfId_eq (h : q.Indexed) (hp : p < q.length) :
    q.positionOfId (q.items p).id = p := by
  rw [positionOfId, if_neg (h.id_lt p hp).not_ge, h.idToPosition_eq hp]

theorem positionOfId_unused (h : q.Indexed) {id : ℕ} (hid : ∀ p < q.length, (q.items p).id ≠ id) :
    q.positionOfId id = -1 := by
  rw [positionOfId]
  split
  · rfl
  · exact h.unused id (not_le.mp ‹_›) hid

theorem injOn (h : q.Indexed) {p p' : ℕ} (hp : p < q.length) (hp' : p' < q.length)
    (hid : (q.items p).id = (q.items p').id) : p = p' := by
  have h₁ := h.idToPosition_eq hp
  rw [hid, h.idToPosition_eq hp'] at h₁
  exact_mod_cast h₁.symm

theorem of_source (h : q.Indexed) (src : ℕ → ℕ) (hmax : q'.maxLength = q.maxLength)
    (hsrc : ∀ p < q'.length, src p < q.length)
    (hid : ∀ p < q'.length, (q'.items p).id = (q.items (src p)).id)
    (hpos : ∀ p < q'.length, q'.idToPosition (q.items (src p)).id = p)
    (hneg : ∀ id < q.idSpace, (∀ p < q'.length, (q.items (src p)).id ≠ id) →
      q'.idToPosition id = -1) : q'.Indexed := by
  have hspace : q'.idSpace = q.idSpace := by rw [idSpace, idSpace, hmax]
  have hfree : ∀ id < q'.idSpace, (∀ p < q'.length, (q'.items p).id ≠ id) →
      q'.idToPosition id = -1 := fun id hlt hne =>
    hneg id (hspace ▸ hlt) fun p hp => hid p hp ▸ hne p hp
  refine ⟨fun p hp => ?_, fun id hlt p => ⟨fun hp => ?_, ?_⟩, hfree⟩
  · rw [hid p hp, hspace]
    exact h.id_lt _ (hsrc p hp)
  · -- a position in the map is the position of the song that put it there
    by_cases hex : ∃ p' < q'.length, (q'.items p').id = id
    · obtain ⟨p', hp', rfl⟩ := hex
      rw [hid p' hp', hpos p' hp'] at hp
      obtain rfl : p' = p := by exact_mod_cast hp
      exact ⟨hp', rfl⟩
    · push Not at hex
      rw [hfree id hlt hex] at hp
      omega
  · rintro ⟨hp, rfl⟩
    rw [hid p hp, hpos p hp]

end Indexed

/-! ### New ids -/

theorem Indexed.exists_unused (h : q.Indexed) (hfull : q.length < q.maxLength) :
    ∃ id < q.idSpace, q.idToPosition id = -1 := by
  have hcard : ((Finset.range q.length).image fun p => (q.items p).id).card <
      (Finset.range q.idSpace).card := by
    refine Finset.card_image_le.trans_lt ?_
    rw [Finset.card_range, Finset.card_range, idSpace, queueHashMult]
    omega
  obtain ⟨id, hid, hnot⟩ := Finset.exists_mem_notMem_of_card_lt_card hcard
  rw [Finset.mem_range] at hid
  refine ⟨id, hid, h.unused id hid fun p hp heq => hnot ?_⟩
  exact Finset.mem_image.mpr ⟨p, Finset.mem_range.mpr hp, heq⟩

def nextId (q : Queue σ) (cur : ℕ) : ℕ :=
  if q.idSpace ≤ unsigned (cur + 1) then 0 else unsigned (cur + 1)

theorem generateIdFrom_succ (q : Queue σ) (fuel cur : ℕ) : q.generateIdFrom (fuel + 1) cur =
      if q.idToPosition (q.nextId cur) = -1 then .ok (q.nextId cur)
      else q.generateIdFrom fuel (q.nextId cur) :=
  rfl

theorem nextId_lt (hpos : 0 < q.idSpace) (cur : ℕ) : q.nextId cur < q.idSpace := by
  rw [nextId]
  split <;> omega

theorem nextId_eq_mod {cur : ℕ} (hspace : q.idSpace < 4294967296) (hcur : cur < q.idSpace) :
    q.nextId cur = (cur + 1) % q.idSpace := by
  have hcast : unsigned (cur + 1) = cur + 1 := unsigned_natCast (n := cur + 1) (by omega)
  rw [nextId, hcast]
  split
  · obtain heq : cur + 1 = q.idSpace := by omega
    rw [heq, mod_self]
  · rw [mod_eq_of_lt (by omega)]

theorem generateIdFrom_succeeds (hspace : q.idSpace < 4294967296) {id d : ℕ}
    (hid : id < q.idSpace) (hunused : q.idToPosition id = -1) {fuel : ℕ} (cur : ℕ)
    (hfuel : d < fuel) (hd : (q.nextId cur + d) % q.idSpace = id) :
    (q.generateIdFrom fuel cur).Succeeds fun id => id < q.idSpace ∧ q.idToPosition id = -1 := by
  have hpos : 0 < q.idSpace := by omega
  induction fuel generalizing cur d with
  | zero => omega
  | succ fuel ih =>
    have hlt := nextId_lt hpos cur
    rw [generateIdFrom_succ]
    refine .ite (fun hneg => ?_) fun hused => ?_
    · exact .ok ⟨hlt, hneg⟩
    · -- a used id is not the one we know of, so that one is still ahead
      cases d with
      | zero =>
        rw [add_zero, mod_eq_of_lt hlt] at hd
        exact absurd (hd ▸ hunused) hused
      | succ d =>
        refine ih (d := d) _ (by omega) ?_
        rw [nextId_eq_mod hspace hlt, mod_add_mod, ← hd]
        congr 1
        omega

/-- **New ids.** A queue that is not full hands out an unused id, wherever the counter
stands. -/
theorem Indexed.generateId_succeeds (h : q.Indexed) (hspace : q.idSpace < 4294967296)
    (hfull : q.length < q.maxLength) :
    q.generateId.Succeeds fun id => id < q.idSpace ∧ q.idToPosition id = -1 := by
  obtain ⟨id, hid, hunused⟩ := h.exists_unused hfull
  have hlt := nextId_lt (q := q) (by omega) q.cur
  refine generateIdFrom_succeeds hspace hid hunused q.cur
    (d := (id + (q.idSpace - q.nextId q.cur)) % q.idSpace) ?_ ?_
  · exact (mod_lt _ (by omega)).trans (lt_succ_self _)
  · rw [add_mod_mod, show q.nextId q.cur + (id + (q.idSpace - q.nextId q.cur)) =
      id + q.idSpace by omega, add_mod_right, mod_eq_of_lt hid]

/-! ### Adding a song -/

def appended (q : Queue σ) (song : σ) (priority id : ℕ) : Queue σ :=
  { q with
    cur := id
    items := update q.items q.length
      { song := song, id := id, version := q.version, priority := priority }
    order := update q.order q.length q.length
    idToPosition := update q.idToPosition id q.length
    length := q.length + 1 }

theorem Indexed.appended (h : q.Indexed) (song : σ) (priority : ℕ) {id : ℕ}
    (hid : id < q.idSpace) (hunused : q.idToPosition id = -1) :
    (q.appended song priority id).Indexed := by
  have hfresh : ∀ p < q.length, (q.items p).id ≠ id := by
    rintro p hp rfl
    rw [h.idToPosition_eq hp] at hunused
    omega
  have hold : ∀ p < q.length, (q.appended song priority id).items p = q.items p :=
    fun p hp => Function.update_of_ne hp.ne _ _
  have hnew : ((q.appended song priority id).items q.length).id = id := by
    simp only [Queue.appended, Function.update_self]
  refine ⟨fun p hp => ?_, fun id' hid' p => ?_, fun id' hid' hne => ?_⟩
  · rcases Nat.lt_succ_iff_lt_or_eq.mp hp with hlt | rfl
    · rw [hold p hlt]
      exact h.id_lt p hlt
    · rwa [hnew]
  · rcases eq_or_ne id' id with rfl | hne
    · rw [show (q.appended song priority id').idToPosition id' = q.length from
        Function.update_self .., Int.natCast_inj]
      constructor
      · rintro rfl
        exact ⟨lt_succ_self _, hnew⟩
      · rintro ⟨hp, heq⟩
        rcases Nat.lt_succ_iff_lt_or_eq.mp hp with hlt | rfl
        · exact absurd (hold p hlt ▸ heq) (hfresh p hlt)
        · rfl
    · rw [show (q.appended song priority id).idToPosition id' = q.idToPosition id' from
        Function.update_of_ne hne .., h.position_iff id' hid']
      constructor
      · rintro ⟨hp, heq⟩
        exact ⟨lt_succ_of_lt hp, hold p hp ▸ heq⟩
      · rintro ⟨hp, heq⟩
        rcases Nat.lt_succ_iff_lt_or_eq.mp hp with hlt | rfl
        · exact ⟨hlt, hold p hlt ▸ heq⟩
        · exact absurd (hnew.symm.trans heq).symm hne
  · have hne' : id' ≠ id := by
      rintro rfl
      exact hne q.length (lt_succ_self _) hnew
    rw [show (q.appended song priority id).idToPosition id' = q.idToPosition id' from
      Function.update_of_ne hne' ..]
    exact h.unused id' hid' fun p hp => hold p hp ▸ hne p (lt_succ_of_lt hp)

theorem Indexed.append_succeeds (h : q.Indexed) (hspace : q.idSpace < 4294967296)
    (hfull : q.length < q.maxLength) (song : σ) (priority : ℕ) :
    (q.append song priority).Succeeds fun r => r.1 = q.appended song priority r.2 ∧
      r.2 < q.idSpace ∧ q.idToPosition r.2 = -1 := by
  refine (h.generateId_succeeds hspace hfull).bind fun id hid => ?_
  have hnot : q.isFull = false := by
    rw [isFull, decide_eq_false_iff_not]
    omega
  rw [hnot]
  exact .ok ⟨rfl, hid⟩

/-! ### Exchanging two songs -/

theorem swap_items (q : Queue σ) (p₁ p₂ p : ℕ) : (q.swap p₁ p₂).items p = if p = p₁ ∨ p = p₂ then
      (q.items (Equiv.swap p₁ p₂ p)).stamp q.version else q.items p := by
  rw [swap]
  rcases eq_or_ne p p₂ with rfl | h₂
  · simp
  · rcases eq_or_ne p p₁ with rfl | h₁
    · simp [h₂]
    · simp [h₁, h₂]

theorem swap_id (q : Queue σ) (p₁ p₂ p : ℕ) :
    ((q.swap p₁ p₂).items p).id = (q.items (Equiv.swap p₁ p₂ p)).id := by
  rw [swap_items]
  split
  · rfl
  · rw [Equiv.swap_apply_of_ne_of_ne] <;> tauto

theorem Indexed.swap (h : q.Indexed) {p₁ p₂ : ℕ} (h₁ : p₁ < q.length) (h₂ : p₂ < q.length) :
    (q.swap p₁ p₂).Indexed := by
  have hlt : ∀ p < q.length, Equiv.swap p₁ p₂ p < q.length := by
    intro p hp
    rw [Equiv.swap_apply_def]
    split_ifs <;> assumption
  have hmap : ∀ p < q.length, (q.swap p₁ p₂).idToPosition (q.items p).id =
      (Equiv.swap p₁ p₂ p : ℕ) := by
    intro p hp
    rw [Queue.swap]
    rcases eq_or_ne p p₂ with rfl | hp₂
    · simp
    · have hne₂ : (q.items p).id ≠ (q.items p₂).id := fun heq => hp₂ (h.injOn hp h₂ heq)
      rcases eq_or_ne p p₁ with rfl | hp₁
      · simp [hne₂]
      · have hne₁ : (q.items p).id ≠ (q.items p₁).id := fun heq => hp₁ (h.injOn hp h₁ heq)
        simp [hne₁, hne₂, Equiv.swap_apply_of_ne_of_ne hp₁ hp₂, h.idToPosition_eq hp]
  refine h.of_source (Equiv.swap p₁ p₂) rfl hlt (fun p _ => swap_id q p₁ p₂ p) ?_ ?_
  · intro p hp
    rw [hmap _ (hlt p hp), Equiv.swap_apply_self]
  · intro id hid hne
    have hne' : ∀ p < q.length, (q.items p).id ≠ id := fun p hp => by
      simpa using hne (Equiv.swap p₁ p₂ p) (hlt p hp)
    simp only [Queue.swap, Function.update_of_ne (hne' p₂ h₂).symm,
      Function.update_of_ne (hne' p₁ h₁).symm]
    exact h.unused id hid hne'

/-! ### Deleting a song -/

def deleteSource (position p : ℕ) : ℕ :=
  if p < position then p else p + 1

private def released (q : Queue σ) (position : ℕ) : Queue σ :=
  { q with
    length := q.length - 1
    idToPosition := update q.idToPosition (q.items position).id (-1) }

private theorem mem_shift {lo n : ℕ} {m : ℕ × ℕ} : m ∈ (range' lo n).map (fun i => (i + 1, i)) ↔
      (lo ≤ m.2 ∧ m.2 < lo + n) ∧ m.1 = m.2 + 1 := by
  simp only [mem_map, mem_range'_1]
  constructor
  · rintro ⟨i, hi, rfl⟩
    exact ⟨hi, rfl⟩
  · rintro ⟨hi, h⟩
    exact ⟨m.2, hi, Prod.ext h.symm rfl⟩

private theorem deleteItems_eq_placeAll (q : Queue σ) (position : ℕ) :
    q.deleteItems position = (released q position).placeAll
      (((range' position (q.length - 1 - position)).map fun i => (i + 1, i)).map
        fun m => ((released q position).items m.1, m.2)) := by
  refine moveSongs_eq_placeAll (released q position) ?_
  rw [pairwise_map]
  refine List.Pairwise.imp (fun {i i'} hlt => ?_) pairwise_lt_range'
  omega

theorem deleteItems_length (q : Queue σ) (position : ℕ) :
    (q.deleteItems position).length = q.length - 1 := by
  rw [deleteItems_eq_placeAll, placeAll_eq, released]

theorem deleteItems_items (q : Queue σ) (position p : ℕ) :
    (q.deleteItems position).items p = if position ≤ p ∧ p < q.length - 1 then
      (q.items (p + 1)).stamp q.version else q.items p := by
  rw [deleteItems_eq_placeAll]
  split
  · refine placeAll_items_of_mem (mem_shift.mpr ⟨by simp; omega, rfl⟩) fun m hm hp => ?_
    rw [← hp]
    exact (mem_shift.mp hm).2
  · refine placeAll_items_of_forall_ne fun m hm hp => ?_
    have := (mem_shift.mp hm).1
    omega

theorem deleteItems_eq (q : Queue σ) (position : ℕ) : q.deleteItems position = { q with
      length := q.length - 1
      items := (q.deleteItems position).items
      idToPosition := (q.deleteItems position).idToPosition } := by
  rw [deleteItems_eq_placeAll, placeAll_eq, released]

theorem Indexed.deleteItems (h : q.Indexed) {position : ℕ} (hpos : position < q.length) :
    (q.deleteItems position).Indexed := by
  have hlen := deleteItems_length q position
  have hlt : ∀ p < (q.deleteItems position).length, deleteSource position p < q.length := by
    intro p hp
    rw [deleteSource]
    split <;> omega
  refine h.of_source (deleteSource position) ?_ hlt ?_ ?_ ?_
  · rw [deleteItems_eq]
  · intro p hp
    rw [deleteItems_items, deleteSource]
    split
    · rw [if_neg (by omega), QueueItem.stamp]
    · rw [if_pos (by omega)]
  · -- a song behind the deleted one was moved, one before it was not
    intro p hp
    rw [deleteSource, deleteItems_eq_placeAll]
    split
    · have hne : ∀ m ∈ (range' position (q.length - 1 - position)).map (fun i => (i + 1, i)),
          ((released q position).items m.1).id ≠ (q.items p).id := by
        intro m hm heq
        have hm' := mem_shift.mp hm
        have := h.injOn (by omega) (by omega) heq
        omega
      have hne' : (q.items p).id ≠ (q.items position).id := fun heq => by
        have := h.injOn (by omega) hpos heq
        omega
      rw [placeAll_idToPosition_of_forall_ne hne]
      exact (Function.update_of_ne hne' _ _).trans (h.idToPosition_eq (by omega))
    · refine placeAll_idToPosition_of_mem (mem_shift.mpr ⟨by simp; omega, rfl⟩) fun m hm heq => ?_
      have hm' := mem_shift.mp hm
      have := h.injOn (by omega) (by omega) heq
      omega
  · intro id hid hne
    have hne' : ∀ p < q.length, p ≠ position → (q.items p).id ≠ id := by
      intro p hp hpp
      rcases lt_or_gt_of_ne hpp with hlt | hgt
      · have := hne p (by omega)
        rwa [deleteSource, if_pos hlt] at this
      · have := hne (p - 1) (by omega)
        rwa [deleteSource, if_neg (by omega), Nat.sub_add_cancel (by omega)] at this
    rw [deleteItems_eq_placeAll, placeAll_idToPosition_of_forall_ne fun m hm => ?_, released]
    · rcases eq_or_ne id (q.items position).id with rfl | hid'
      · exact Function.update_self ..
      · refine (Function.update_of_ne hid' _ _).trans (h.unused id hid fun p hp => ?_)
        rcases eq_or_ne p position with rfl | hpp
        · exact hid'.symm
        · exact hne' p hp hpp
    · have hm' := mem_shift.mp hm
      exact hne' m.1 (by omega) (by omega)

/-! ### Moving a block of songs -/

def rangeSource (start stop dst p : ℕ) : ℕ :=
  if dst ≤ p ∧ p < dst + (stop - start) then p + start - dst
  else if p < dst then if p < start then p else p + (stop - start)
  else if p < start + (stop - start) then p - (stop - start) else p

def rangeTarget (start stop dst p : ℕ) : ℕ :=
  if stop ≤ p ∧ p < dst + (stop - start) then p - (stop - start)
  else if p < start ∧ dst ≤ p then p + (stop - start)
  else if start ≤ p ∧ p < stop then p + dst - start
  else p

/-- The block lies in the queue, before the move and after it. -/
structure InRange (start stop dst length : ℕ) : Prop where
  start_le : start ≤ stop
  stop_le : stop ≤ length
  dst_le : dst + (stop - start) ≤ length

section Range

variable {start stop dst n : ℕ}

theorem rangeSource_rangeTarget (h : start ≤ stop) (p : ℕ) :
    rangeSource start stop dst (rangeTarget start stop dst p) = p := by
  unfold rangeTarget
  split_ifs <;> unfold rangeSource <;> split_ifs <;> omega

theorem rangeTarget_rangeSource (h : start ≤ stop) (p : ℕ) :
    rangeTarget start stop dst (rangeSource start stop dst p) = p := by
  unfold rangeSource
  split_ifs <;> unfold rangeTarget <;> split_ifs <;> omega

theorem rangeSource_lt (h : InRange start stop dst n) {p : ℕ} (hp : p < n) :
    rangeSource start stop dst p < n := by
  obtain ⟨h₁, h₂, h₃⟩ := h
  unfold rangeSource
  split_ifs <;> omega

theorem rangeTarget_lt (h : InRange start stop dst n) {p : ℕ} (hp : p < n) :
    rangeTarget start stop dst p < n := by
  obtain ⟨h₁, h₂, h₃⟩ := h
  unfold rangeTarget
  split_ifs <;> omega

section

variable (h : start ≤ stop) {p : ℕ}
  (hp : ¬ (min start dst ≤ p ∧ p < max stop (dst + (stop - start))))
include h hp

theorem rangeSource_of_not_mem : rangeSource start stop dst p = p := by
  unfold rangeSource
  split_ifs <;> omega

theorem rangeTarget_of_not_mem : rangeTarget start stop dst p = p := by
  unfold rangeTarget
  split_ifs <;> omega

end

private theorem unsigned_add_sub {a b c : ℕ} (hc : c ≤ a + b) (hlt : a + b < 4294967296) :
    unsigned ((a : ℤ) + b - c) = a + b - c := by
  rw [unsigned_eq (by omega) (by omega)]
  omega

theorem mem_map_pair {l : List ℕ} {f g : ℕ → ℕ} {P : ℕ → Prop} {m : ℕ × ℕ}
    (hl : ∀ i, i ∈ l ↔ P i) (hf : ∀ i, P i → f i = g i) :
    m ∈ l.map (fun i => (i, f i)) ↔ P m.1 ∧ m.2 = g m.1 := by
  rw [mem_map]
  constructor
  · rintro ⟨i, hi, rfl⟩
    exact ⟨(hl i).mp hi, hf i ((hl i).mp hi)⟩
  · rintro ⟨hm, heq⟩
    exact ⟨m.1, (hl m.1).mpr hm, by rw [hf m.1 hm, ← heq]⟩

section

variable (h : InRange start stop dst n) (hn : n < 2147483648)
include h hn

theorem rangeOrderEntry_eq {p : ℕ}
    (hp : p < n) : rangeOrderEntry start stop dst p = rangeTarget start stop dst p := by
  obtain ⟨h₁, h₂, h₃⟩ := h
  have hend : unsigned ((dst : ℤ) + stop - start) = dst + (stop - start) := by
    rw [unsigned_add_sub (by omega) (by omega), Nat.add_sub_assoc h₁]
  rw [rangeOrderEntry, rangeTarget, hend]
  split_ifs with hbehind hbefore hblock
  · rw [unsigned_eq (by omega) (by omega)]
    omega
  · rw [unsigned_eq (by omega) (by omega)]
    omega
  · rw [unsigned_eq (by omega) (by omega)]
    omega
  · rfl

theorem mem_rangeUp {m : ℕ × ℕ} : m ∈ rangeUp start stop dst ↔
      (stop ≤ m.1 ∧ m.1 < dst + (stop - start)) ∧ m.2 = m.1 - (stop - start) := by
  obtain ⟨h₁, h₂, h₃⟩ := h
  rw [rangeUp, unsigned_add_sub (by omega) (by omega)]
  refine mem_map_pair (P := fun i => stop ≤ i ∧ i < dst + (stop - start))
    (g := fun i => i - (stop - start)) (fun i => mem_range'_1.trans (by omega)) fun i hi => ?_
  rw [unsigned_add_sub (by omega) (by omega)]
  omega

theorem mem_rangeDown {m : ℕ × ℕ} : m ∈ rangeDown start stop dst ↔
      (dst ≤ m.1 ∧ m.1 < start) ∧ m.2 = m.1 + (stop - start) := by
  obtain ⟨h₁, h₂, h₃⟩ := h
  refine mem_map_pair (P := fun i => dst ≤ i ∧ i < start) (g := fun i => i + (stop - start))
    (fun i => mem_reverse.trans (mem_range'_1.trans (by omega))) fun i hi => ?_
  rw [unsigned_add_sub (by omega) (by omega), Nat.add_sub_assoc h₁]

theorem mem_rangeBlock {m : ℕ × ℕ} : m ∈ rangeBlock start stop dst ↔
      (start ≤ m.1 ∧ m.1 < stop) ∧ m.2 = m.1 + dst - start := by
  obtain ⟨h₁, h₂, h₃⟩ := h
  refine mem_map_pair (P := fun i => start ≤ i ∧ i < stop) (g := fun i => i + dst - start)
    (fun i => mem_range'_1.trans (by omega)) fun i hi => ?_
  rw [unsigned_add_sub (by omega) (by omega), add_comm]

theorem mem_rangeMoves {m : ℕ × ℕ} :
    m ∈ rangeMoves start stop dst ↔ (min start dst ≤ m.1 ∧ m.1 < max stop (dst + (stop - start))) ∧
      m.2 = rangeTarget start stop dst m.1 := by
  rw [rangeMoves, mem_append, mem_append, mem_rangeUp h hn, mem_rangeDown h hn,
    mem_rangeBlock h hn, rangeTarget]
  obtain ⟨h₁, h₂, h₃⟩ := h
  constructor
  · rintro ((⟨hm, hto⟩ | ⟨hm, hto⟩) | ⟨hm, hto⟩)
    · refine ⟨⟨min_le_of_left_le (h₁.trans hm.1), lt_max_of_lt_right hm.2⟩, ?_⟩
      rw [hto, if_pos hm]
    · refine ⟨⟨min_le_of_right_le hm.1, lt_max_of_lt_left (hm.2.trans_le h₁)⟩, ?_⟩
      rw [hto, if_neg (by omega), if_pos ⟨hm.2, hm.1⟩]
    · refine ⟨⟨min_le_of_left_le hm.1, lt_max_of_lt_left hm.2⟩, ?_⟩
      rw [hto, if_neg (by omega), if_neg (by omega), if_pos hm]
  · rintro ⟨hm, hto⟩
    split_ifs at hto with hbehind hbefore hblock
    · exact .inl (.inl ⟨hbehind, hto⟩)
    · exact .inl (.inr ⟨⟨hbefore.2, hbefore.1⟩, hto⟩)
    · exact .inr ⟨hblock, hto⟩
    · rw [min_le_iff, lt_max_iff] at hm
      omega

private theorem rangeUp_pairwise : (rangeUp start stop dst).Pairwise fun m m' => m'.1 ≠ m.2 := by
  have hsorted : (rangeUp start stop dst).Pairwise fun m m' => m.1 < m'.1 :=
    pairwise_map.mpr pairwise_lt_range'
  refine hsorted.imp_of_mem fun {m m'} hm _ hlt => ?_
  rw [((mem_rangeUp h hn).mp hm).2]
  omega

private theorem rangeDown_pairwise :
    (rangeDown start stop dst).Pairwise fun m m' => m'.1 ≠ m.2 := by
  have hsorted : (rangeDown start stop dst).Pairwise fun m m' => m'.1 < m.1 :=
    pairwise_map.mpr (pairwise_reverse.mpr pairwise_lt_range')
  refine hsorted.imp_of_mem fun {m m'} hm _ hlt => ?_
  rw [((mem_rangeDown h hn).mp hm).2]
  omega

end

section

variable (q : Queue σ) (h : InRange start stop dst n) (hn : n < 2147483648)
include h hn

theorem moveRangeBody_eq_placeAll : q.moveRangeBody start stop dst =
      let q' := q.placeAll ((rangeMoves start stop dst).map fun m => (q.items m.1, m.2))
      if q'.random then q'.mapOrder (rangeOrderEntry start stop dst) else q' := by
  have hloops : (q.moveSongs (rangeUp start stop dst)).moveSongs (rangeDown start stop dst) =
      q.placeAll ((rangeUp start stop dst ++ rangeDown start stop dst).map
        fun m => (q.items m.1, m.2)) := by
    -- only one of the two loops has anything to do
    rcases lt_or_ge dst start with hlt | hge
    · have hup : rangeUp start stop dst = [] := by
        refine eq_nil_iff_forall_not_mem.mpr fun m hm => ?_
        have hmem := ((mem_rangeUp h hn).mp hm).1
        have hle := h.start_le
        omega
      rw [hup, nil_append]
      exact moveSongs_eq_placeAll q (rangeDown_pairwise h hn)
    · have hdown : rangeDown start stop dst = [] := by
        rw [rangeDown, Nat.sub_eq_zero_of_le hge]
        rfl
      rw [hdown, append_nil]
      exact moveSongs_eq_placeAll q (rangeUp_pairwise h hn)
  simp only [moveRangeBody, hloops, ← placeAll_append, rangeMoves, map_append]

theorem moveRangeBody_eq : q.moveRangeBody start stop dst = { q with
      items := (q.moveRangeBody start stop dst).items
      idToPosition := (q.moveRangeBody start stop dst).idToPosition
      order := if q.random then
          fun i => if i < q.length then rangeOrderEntry start stop dst (q.order i) else q.order i
        else q.order } := by
  rw [moveRangeBody_eq_placeAll q h hn, placeAll_eq]
  cases q.random <;> simp [mapOrder]

private theorem moveRangeBody_items_eq : (q.moveRangeBody start stop dst).items =
      (q.placeAll ((rangeMoves start stop dst).map fun m => (q.items m.1, m.2))).items := by
  rw [moveRangeBody_eq_placeAll q h hn]
  dsimp only
  split <;> rfl

private theorem moveRangeBody_idToPosition_eq : (q.moveRangeBody start stop dst).idToPosition =
      (q.placeAll ((rangeMoves start stop dst).map fun m => (q.items m.1, m.2))).idToPosition := by
  rw [moveRangeBody_eq_placeAll q h hn]
  dsimp only
  split <;> rfl

theorem moveRangeBody_items (p : ℕ) : (q.moveRangeBody start stop dst).items p =
      if min start dst ≤ p ∧ p < max stop (dst + (stop - start)) then
        (q.items (rangeSource start stop dst p)).stamp q.version else q.items p := by
  rw [moveRangeBody_items_eq q h hn]
  have hle := h.start_le
  by_cases hspan : min start dst ≤ p ∧ p < max stop (dst + (stop - start))
  · rw [if_pos hspan]
    refine placeAll_items_of_mem ((mem_rangeMoves h hn).mpr ⟨?_, ?_⟩) fun m hm hp => ?_
    · dsimp only
      unfold rangeSource
      split_ifs <;> omega
    · exact (rangeTarget_rangeSource hle p).symm
    · rw [← hp, ((mem_rangeMoves h hn).mp hm).2, rangeSource_rangeTarget hle]
  · rw [if_neg hspan]
    refine placeAll_items_of_forall_ne fun m hm hp => ?_
    obtain ⟨hm₁, hm₂⟩ := (mem_rangeMoves h hn).mp hm
    have hsource : m.1 = rangeSource start stop dst p := by
      rw [← hp, hm₂, rangeSource_rangeTarget hle]
    rw [hsource, rangeSource_of_not_mem hle hspan] at hm₁
    exact hspan hm₁

theorem moveRangeBody_id (p : ℕ) : ((q.moveRangeBody start stop dst).items p).id =
      (q.items (rangeSource start stop dst p)).id := by
  rw [moveRangeBody_items q h hn]
  split
  · rfl
  · rw [rangeSource_of_not_mem h.start_le ‹_›]

end

theorem Indexed.moveRangeBody (hq : q.Indexed) (h : InRange start stop dst q.length)
    (hn : q.length < 2147483648) : (q.moveRangeBody start stop dst).Indexed := by
  have hlen : (q.moveRangeBody start stop dst).length = q.length := by
    rw [moveRangeBody_eq q h hn]
  have hspan : ∀ m ∈ rangeMoves start stop dst, m.1 < q.length := by
    intro m hm
    obtain ⟨h₁, h₂, h₃⟩ := h
    have := ((mem_rangeMoves ⟨h₁, h₂, h₃⟩ hn).mp hm).1
    omega
  refine hq.of_source (rangeSource start stop dst) (by rw [moveRangeBody_eq q h hn])
    (fun p hp => rangeSource_lt h (hlen ▸ hp)) (fun p _ => moveRangeBody_id q h hn p) ?_ ?_
  · intro p hp
    rw [hlen] at hp
    rw [moveRangeBody_idToPosition_eq q h hn]
    by_cases hmoved : min start dst ≤ rangeSource start stop dst p ∧
        rangeSource start stop dst p < max stop (dst + (stop - start))
    · refine placeAll_idToPosition_of_mem ((mem_rangeMoves h hn).mpr
        ⟨hmoved, (rangeTarget_rangeSource h.start_le p).symm⟩) fun m hm heq => ?_
      have := hq.injOn (hspan m hm) (rangeSource_lt h hp) heq
      rw [((mem_rangeMoves h hn).mp hm).2, this, rangeTarget_rangeSource h.start_le]
    · have hfix : rangeSource start stop dst p = p := by
        rw [← rangeTarget_of_not_mem h.start_le hmoved, rangeTarget_rangeSource h.start_le]
      rw [hfix] at hmoved ⊢
      rw [placeAll_idToPosition_of_forall_ne fun m hm heq => ?_, hq.idToPosition_eq hp]
      have hmp : m.1 = p := hq.injOn (hspan m hm) hp heq
      exact hmoved (hmp ▸ ((mem_rangeMoves h hn).mp hm).1)
  · intro id hid hne
    have hne' : ∀ p < q.length, (q.items p).id ≠ id := fun p hp => by
      have := hne (rangeTarget start stop dst p) (hlen ▸ rangeTarget_lt h hp)
      rwa [rangeSource_rangeTarget h.start_le] at this
    rw [moveRangeBody_idToPosition_eq q h hn,
      placeAll_idToPosition_of_forall_ne fun m hm => hne' m.1 (hspan m hm)]
    exact hq.unused id hid hne'

theorem lt_of_mem_rangeIndices (h : InRange start stop dst n) (hn : n < 2147483648) {i : ℕ}
    (hi : i ∈ rangeIndices start stop dst) : i < n := by
  rw [rangeIndices, mem_flatMap] at hi
  obtain ⟨m, hm, hi⟩ := hi
  obtain ⟨hm₁, hm₂⟩ := (mem_rangeMoves h hn).mp hm
  have hlt : m.1 < n := by
    obtain ⟨h₁, h₂, h₃⟩ := h
    omega
  rcases mem_pair.mp hi with rfl | rfl
  · exact hlt
  · rw [hm₂]
    exact rangeTarget_lt h hlt

/-- **Moving a block** within the queue uses no index outside of it. -/
theorem moveRange_eq_ok (q : Queue σ) (h : InRange start stop dst q.length)
    (hn : q.length < 2147483648) :
    q.moveRange start stop dst = .ok (q.moveRangeBody start stop dst) := by
  have hfind : (rangeIndices start stop dst).find? (fun i => q.length ≤ i) = none := by
    rw [find?_eq_none]
    intro i hi
    have := lt_of_mem_rangeIndices h hn hi
    simp
    omega
  rw [moveRange, if_neg (not_lt.mpr h.start_le), hfind]

theorem exists_mem_rangeIndices (h₁ : start ≤ stop) (h₂ : stop ≤ n) (hn : n < 1073741824)
    (hdst : dst < 4294967296) (hout : n < dst + (stop - start)) :
    ∃ i ∈ rangeIndices start stop dst, n ≤ i := by
  suffices hm : ∃ m ∈ rangeMoves start stop dst, n ≤ m.1 ∨ n ≤ m.2 by
    obtain ⟨m, hm, hle | hle⟩ := hm
    · exact ⟨m.1, mem_flatMap.mpr ⟨m, hm, by simp⟩, hle⟩
    · exact ⟨m.2, mem_flatMap.mpr ⟨m, hm, by simp⟩, hle⟩
  have hblock : ∀ i, start ≤ i → i < stop →
      (i, unsigned ((dst : ℤ) + i - start)) ∈ rangeMoves start stop dst := fun i hi₁ hi₂ =>
    mem_append_right _ (mem_map.mpr ⟨i, mem_range'_1.mpr ⟨hi₁, by omega⟩, rfl⟩)
  rcases h₁.lt_or_eq with hlt | rfl
  · rcases lt_or_ge dst n with hd | hd
    · -- the last song of the block
      refine ⟨_, hblock (stop - 1) (by omega) (by omega), .inr ?_⟩
      rw [unsigned_eq (by omega) (by omega)]
      omega
    · -- the first song of the block
      refine ⟨_, hblock start le_rfl hlt, .inr ?_⟩
      rw [unsigned_eq (by omega) (by omega)]
      omega
  · -- without a block, the songs behind it
    refine ⟨(n, unsigned ((start : ℤ) + n - start)), ?_, .inl le_rfl⟩
    refine mem_append_left _ (mem_append_left _ (mem_map.mpr ⟨n, ?_, rfl⟩))
    have hu : unsigned ((start : ℤ) + dst - start) = dst := by
      rw [unsigned_eq (by omega) (by omega)]
      omega
    rw [hu, mem_range'_1]
    omega

theorem moveRange_not_succeeds (q : Queue σ) {i : ℕ} (hi : i ∈ rangeIndices start stop dst)
    (hlen : q.length ≤ i) {P : Queue σ → Prop} : ¬ (q.moveRange start stop dst).Succeeds P := by
  have hfind : ((rangeIndices start stop dst).find? fun i => q.length ≤ i) ≠ none := fun hnone =>
    find?_eq_none.mp hnone i hi (by simpa using hlen)
  rw [moveRange]
  split
  · exact Except.not_succeeds_error
  · split
    · exact Except.not_succeeds_error
    · next heq => exact absurd heq hfind

end Range

theorem move_eq_moveRangeBody (q : Queue σ) {src dst : ℕ} (hsrc : src < 2147483647)
    (hdst : dst < 2147483647) (horder : ∀ i < q.length, q.order i < 2147483648) :
    q.move src dst = q.moveRangeBody src (src + 1) dst := by
  have hup : (range' src (dst - src)).map (fun i => (i + 1, i)) =
      rangeUp src (src + 1) dst := by
    have hlen : unsigned (((src + 1 : ℕ) : ℤ) + dst - src) - (src + 1) = dst - src := by
      unfold unsigned
      omega
    rw [rangeUp, hlen, add_comm src 1, ← map_add_range', map_map]
    refine map_congr_left fun i hi => ?_
    rw [mem_range'_1] at hi
    rw [Function.comp_apply]
    refine Prod.ext (add_comm i 1) ?_
    unfold unsigned
    dsimp only
    omega
  have hdown : (range' (dst + 1) (src - dst)).reverse.map (fun i => (i - 1, i)) =
      rangeDown src (src + 1) dst := by
    rw [rangeDown, add_comm dst 1, ← map_add_range', ← map_reverse, map_map]
    refine map_congr_left fun i hi => ?_
    rw [mem_reverse, mem_range'_1] at hi
    rw [Function.comp_apply]
    refine Prod.ext (Nat.add_sub_cancel_left 1 i) ?_
    unfold unsigned
    omega
  have hblock : rangeBlock src (src + 1) dst = [(src, dst)] := by
    rw [rangeBlock, Nat.add_sub_cancel_left]
    simp only [range'_one, map_cons, map_nil, cons.injEq, Prod.mk.injEq, true_and, and_true]
    unfold unsigned
    omega
  have hentry : ∀ x < 2147483648,
      moveOrderEntry src dst x = rangeOrderEntry src (src + 1) dst x := by
    intro x hx
    unfold moveOrderEntry rangeOrderEntry unsigned
    split_ifs <;> omega
  have horder' : ∀ q' : Queue σ, q'.length = q.length → q'.order = q.order →
      q'.mapOrder (moveOrderEntry src dst) = q'.mapOrder (rangeOrderEntry src (src + 1) dst) := by
    intro q' hlen hord
    rw [mapOrder, mapOrder]
    congr 1
    funext i
    split
    · rw [hentry _ (hord ▸ horder i (hlen ▸ ‹_›))]
    · rfl
  simp only [move, moveRangeBody, hup, hdown, hblock]
  simp only [map_cons, map_nil, placeAll, foldl_cons, foldl_nil]
  split
  · refine horder' _ ?_ ?_ <;> simp only [place, moveSongs_length, moveSongs_order]
  · rfl

end Queue

end Mpd
