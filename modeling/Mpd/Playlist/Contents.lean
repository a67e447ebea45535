import Mpd.Playlist.Versions

/-!
# The playlist as a list of songs

What the edits of the playlist make of the list of its items (`Queue.contents`): deleting erases
entries and keeps the others in their order, and a failed edit changes nothing. The results about
the list hold for every call that returns, in every state; what becomes of the current song is
followed up for a playlist that is not playing.
-/

namespace Mpd

open List Option

namespace Queue

variable {σ : Type} {q q' : Queue σ}

theorem SameSlots.contents_eq (h : q.SameSlots q') : q'.contents = q.contents :=
  contents_congr h.length fun p _ => by rw [h.items]

end Queue

namespace Playlist

variable {σ : Type} {pl pl' : Playlist σ} {prev : Option σ} {o : ℕ}

section Edits

private theorem drop_eraseIdx_self (l : List σ) (i : ℕ) :
    (l.eraseIdx i).drop i = l.drop (i + 1) := by
  refine ext_getElem? fun j => ?_
  rw [getElem?_drop, getElem?_drop, getElem?_eraseIdx, if_neg (by omega), Nat.add_right_comm]

theorem Core.currentId_eq_none_iff (h : pl.Core) : pl.currentId = none ↔ pl.current = -1 := by
  have hge := h.current_ge
  constructor
  · intro hid
    by_contra hne
    rw [currentId, h.designated_eq (by omega)] at hid
    cases hid
  · intro hcur
    exact currentId_of_neg (by omega)

theorem AfterDelete.designated_map (h : AfterDelete pl o pl' prev) (hcore : pl.Core)
    (ho : o < pl.queue.length) (hne : pl.current ≠ o) :
    pl'.designated = pl.designated.map (Queue.deleteTarget (pl.queue.order o)) := by
  rcases lt_or_ge pl.current 0 with hneg | h0
  · have hid := (h.other hne).1
    rw [currentId_of_neg hneg, currentId, map_eq_none_iff] at hid
    rw [hid, designated_of_neg hneg, map_none]
  · obtain ⟨c, hc⟩ := Int.eq_ofNat_of_zero_le h0
    have hlt := hcore.current_lt
    rw [h.designated_eq hcore ho hc (by omega), designated_natCast hc (by omega), map_some]

theorem Core.designated_ne (h : pl.Core) (ho : o < pl.queue.length) (hne : pl.current ≠ o) {x : ℕ}
    (hx : x ∈ pl.designated) : x ≠ pl.queue.order o := by
  unfold designated at hx
  split at hx
  · obtain rfl := some.inj hx
    intro heq
    have := h.queue.order_inj (by omega) ho heq
    omega
  · cases hx

variable [Qsort] [DecidableEq σ]

/-! ### The list after an edit -/

theorem finishEdit_contents (pl : Playlist σ) (prev : Option σ) :
    (pl.finishEdit prev).Yields fun r =>
      r.2 = .success ∧ r.1.queue.contents = pl.queue.contents := by
  refine (updateQueuedSong_quiet _ prev).bind fun pl' h => .ok ⟨rfl, ?_⟩
  exact (Queue.SameSlots.contents_eq h).trans (Queue.incrementVersion_contents pl.queue)

theorem appendSong_contents (hfull : pl.queue.isFull = false) {song : σ} {q : Queue σ} {id : ℕ}
    (happend : pl.queue.append song 0 = .ok (q, id)) :
    (pl.appendSong song).Yields fun r => r.2 = .success ∧ r.1.queue.contents = q.contents := by
  rw [appendSong, hfull, if_neg Bool.false_ne_true, happend]
  refine .after fun queued => ?_
  refine (finishEdit_contents _ queued).mono fun r hr => ⟨hr.1, hr.2.trans ?_⟩
  split
  · exact (shuffleAppended_sameSongs { pl with queue := q }).contents_eq
  · rfl

/-- **Adding a song** to a queue that is not full: it is the last one of the list, under the id
that the queue has assigned to it. -/
theorem Inv.appendSong_appends (h : pl.Inv) (hfull : pl.queue.isFull = false) (song : σ) :
    ∃ q id, pl.queue.append song 0 = .ok (q, id) ∧
      (pl.appendSong song).Succeeds fun r => r.2 = .success ∧ r.1.Inv ∧
        r.1.queue.contents = pl.queue.contents ++ [⟨song, id, 0, 0⟩] := by
  have hlt : pl.queue.length < pl.queue.maxLength := not_le.mp (of_decide_eq_false hfull)
  obtain ⟨⟨q, id⟩, happend, heq, -⟩ := h.queue.append_succeeds hlt song 0
  refine ⟨q, id, happend, ((h.appendSong_succeeds song).and_yields
    (appendSong_contents hfull happend)).mono ?_⟩
  rintro r ⟨⟨hinv, -⟩, hstatus, hcontents⟩
  have heq : q = pl.queue.appended song 0 id := heq
  refine ⟨hstatus, hinv, ?_⟩
  rw [hcontents, heq, Queue.contents_appended]

theorem moveId_of_failure (pl : Playlist σ) (id : ℕ) (dst : Int32) :
    (pl.moveId id dst).Yields fun r => r.2 ≠ .success → r.1 = pl := by
  refine .branch (.ok fun _ => rfl) ?_
  refine .branch (.ok fun _ => rfl) ?_
  refine .branch (.ok fun _ => rfl) ?_
  refine .after fun queued => .after fun currentSong => ?_
  refine .branch (.ok fun _ => rfl) ?_
  refine .after fun queue => ?_
  exact (finishEdit_contents _ queued).mono fun r hr hne => absurd hr.1 hne

variable [SongRef σ]

omit [DecidableEq σ] in
theorem deleteInternal_contents (pl : Playlist σ) (song : ℕ) (queued : Option σ) :
    (pl.deleteInternal song queued).Yields fun r =>
      r.1.queue.contents = pl.queue.contents.eraseIdx song := by
  refine .after fun songOrder => ?_
  refine (pl.leaveSong_quiet songOrder queued).bind fun r hr => ?_
  refine .bind ?_ fun pl₁ h₁ => .ok h₁
  refine .after fun deleted => ?_
  obtain ⟨pc, hpc, -⟩ := r.1.forgetSong_eq deleted
  rw [hpc]
  refine (r.1.queue.delete_contents song).bind fun q hq => .ok ?_
  rw [hq, Queue.SameSlots.contents_eq hr]

theorem delete_contents (pl : Playlist σ) (song : ℕ) :
    (pl.delete song).Yields fun r => r.1.queue.contents = pl.queue.contents.eraseIdx song := by
  refine .ite (fun hlen => .ok ?_) fun _ => ?_
  · rw [eraseIdx_of_length_le (by rwa [Queue.length_contents])]
  · refine .after fun queued => ?_
    refine (pl.deleteInternal_contents song queued).bind fun r hr => ?_
    exact (r.1.finishEdit_contents r.2).mono fun r' hr' => hr'.2.trans hr

omit [DecidableEq σ] in
theorem deleteDown_contents (start n : ℕ) (pl : Playlist σ) (queued : Option σ) :
    (deleteDown start n pl queued).Yields fun r => r.1.queue.contents =
      pl.queue.contents.take start ++ pl.queue.contents.drop (start + n) := by
  induction n generalizing pl queued with
  | zero => exact .ok (take_append_drop _ _).symm
  | succ n ih =>
    -- the last song of the block is deleted first
    refine (pl.deleteInternal_contents (start + n) queued).bind fun r hr => ?_
    refine (ih r.1 r.2).mono fun r' hr' => ?_
    rw [hr', hr, take_eraseIdx_eq_take_of_le _ _ _ (Nat.le_add_right _ _),
      drop_eraseIdx_self, Nat.add_assoc]

/-! ### The current song of a playlist that is not playing -/

omit [DecidableEq σ] in
theorem Editing.deleteDown_stopped (h : pl.Editing prev) (hplay : pl.playing = false) (start n : ℕ)
    (hlen : start + n ≤ pl.queue.length) :
    (deleteDown start n pl prev).Succeeds fun r => r.1.Editing r.2 ∧
      ((∃ x ∈ pl.designated, ¬ (start ≤ x ∧ x < start + n)) → r.1.currentId = pl.currentId) ∧
      ((∀ x ∈ pl.designated, start ≤ x ∧ x < start + n) → r.1.currentId = none) := by
  induction n generalizing pl prev with
  | zero =>
    refine .ok ⟨h, fun _ => rfl, fun hall => ?_⟩
    rw [currentId, map_eq_none_iff, eq_none_iff_forall_not_mem]
    exact fun x hx => absurd (hall x hx) (by omega)
  | succ n ih =>
    obtain ⟨o, ho, hord⟩ := h.queue.exists_order (show start + n < pl.queue.length by omega)
    rw [deleteDown, ← hord]
    refine (h.deleteOther_succeeds ho (by simp [hplay])).bind ?_
    rintro ⟨pl₁, prev₁⟩ ⟨h₁, hplay₁, -, hreset⟩
    have hlen₁ := h₁.length
    refine (ih h₁.editing (hplay₁.trans hplay) (by dsimp only at hlen₁ ⊢; omega)).mono ?_
    rintro r ⟨hedit, hkept, hgone⟩
    refine ⟨hedit, ?_⟩
    by_cases hcur : pl.current = o
    · -- the current song is deleted in this round
      have hdes := designated_natCast hcur ho
      rw [hdes]
      have hnone : pl₁.designated = none := designated_of_neg (by rw [hreset hcur]; decide)
      refine ⟨?_, fun _ => hgone fun x hx => by rw [hnone] at hx; cases hx⟩
      rintro ⟨x, hx, hout⟩
      obtain rfl := some.inj hx
      exact absurd ⟨by omega, by omega⟩ hout
    · have hdes := h₁.designated_map h.toCore ho hcur
      have hiff : ∀ x ∈ pl.designated, (start ≤ Queue.deleteTarget (pl.queue.order o) x ∧
          Queue.deleteTarget (pl.queue.order o) x < start + n ↔
          start ≤ x ∧ x < start + (n + 1)) := by
        intro x hx
        have hne := h.toCore.designated_ne ho hcur hx
        unfold Queue.deleteTarget
        split <;> omega
      have hid := (h₁.other hcur).1
      rw [hdes] at hkept hgone
      refine ⟨?_, fun hall => hgone fun y hy => ?_⟩
      · rintro ⟨x, hx, hout⟩
        rw [← hid]
        exact hkept ⟨_, mem_map_of_mem _ hx, fun hin => hout ((hiff x hx).mp hin)⟩
      · obtain ⟨x, hx, rfl⟩ := mem_map.mp hy
        exact (hiff x hx).mpr (hall x hx)

/-- What `playlist_delete_range` makes of a playlist: the songs of the range are cut out with their
ids, the others keep their order, and `current` follows its song. -/
structure RangeDeleted (pl : Playlist σ) (start stop : ℕ) (pl' : Playlist σ) : Prop where
  contents : pl'.queue.contents =
    pl.queue.contents.take start ++ pl.queue.contents.drop (max start stop)
  gone : ∀ p < pl.queue.length, start ≤ p → p < stop →
    pl'.queue.positionOfId (pl.queue.items p).id = -1
  position : ∀ p < pl'.queue.length, pl'.queue.positionOfId (pl'.queue.items p).id = p
  kept : (∃ x ∈ pl.designated, ¬ (start ≤ x ∧ x < stop)) → pl'.currentId = pl.currentId
  reset : (∀ x ∈ pl.designated, start ≤ x ∧ x < stop) → pl'.current = -1

/-- **Deleting a range of songs** from a playlist that is not playing. -/
theorem Inv.deleteRange_stopped (h : pl.Inv) (hplay : pl.playing = false) {start : ℕ}
    (hstart : start < pl.queue.length) (stop : ℕ) :
    (pl.deleteRange start stop).Succeeds fun r =>
      r.2 = .success ∧ pl.RangeDeleted start stop r.1 := by
  rw [deleteRange, if_neg hstart.not_ge]
  dsimp only
  split
  · -- nothing is in the range
    have hout : ∀ x, ¬ (start ≤ x ∧ x < stop) := fun x hx => by omega
    refine .ok ⟨rfl, ?_, fun p _ h₁ h₂ => absurd ⟨h₁, h₂⟩ (hout p),
      fun p hp => h.queue.indexed.positionOfId_eq hp, fun _ => rfl, fun hall => ?_⟩
    · rw [max_eq_left (by omega), take_append_drop]
    · refine h.toCore.currentId_eq_none_iff.mp ?_
      rw [currentId, map_eq_none_iff, eq_none_iff_forall_not_mem]
      exact fun x hx => hout x (hall x hx)
  · rename_i hlt
    generalize hn : min stop pl.queue.length - start = n
    refine h.getQueuedSong_succeeds.bind fun prev hprev => ?_
    have hdown := (hprev.deleteDown_stopped hplay start n (by omega)).and_yields
      (deleteDown_contents start n pl prev)
    refine hdown.bind ?_
    rintro ⟨pl₁, prev₁⟩ ⟨⟨hedit, hkept, hgone⟩, hcontents⟩
    refine (hedit.finishEdit_succeeds.and_yields (pl₁.finishEdit_contents prev₁)).mono ?_
    rintro r ⟨⟨hfin, hstatus⟩, -, hsame⟩
    have hiff : ∀ x ∈ pl.designated, (start ≤ x ∧ x < start + n ↔ start ≤ x ∧ x < stop) := by
      intro x hx
      have := lt_of_mem_designated h.queue hx
      omega
    have hcut : r.1.queue.contents =
        pl.queue.contents.take start ++ pl.queue.contents.drop (max start stop) := by
      rw [hsame, hcontents]
      rcases le_total stop pl.queue.length with hle | hle
      · rw [show start + n = max start stop by omega]
      · rw [drop_eq_nil_of_le, drop_eq_nil_of_le] <;> rw [Queue.length_contents] <;> omega
    refine ⟨hstatus, hcut, fun p hp h₁ h₂ => ?_, fun p hp => ?_, ?_, fun hall => ?_⟩
    · exact h.queue.indexed.positionOfId_cut hfin.inv.queue.indexed hcut hp h₁
        (h₂.trans_le (Nat.le_max_right _ _))
    · exact hfin.inv.queue.indexed.positionOfId_eq hp
    · rintro ⟨x, hx, hout⟩
      rw [hfin.currentId_eq]
      exact hkept ⟨x, hx, fun hin => hout ((hiff x hx).mp hin)⟩
    · rw [← hfin.inv.toCore.currentId_eq_none_iff, hfin.currentId_eq]
      exact hgone fun x hx => (hiff x hx).mpr (hall x hx)

end Edits

theorem deleteRange_stopped_four_songs : ∃ pl, Reached pl ∧ pl.playing = false ∧ pl.current = 3 ∧
      (pl.deleteRange 1 3).Succeeds fun r => r.2 = .success ∧ pl.RangeDeleted 1 3 r.1 := by
  obtain ⟨pl, hpl, hplay, hcur, hlen⟩ := exists_reached
    [.appendSong 10, .appendSong 11, .appendSong 12, .appendSong 13, .play 3, .stop]
    (P := fun pl => pl.playing = false ∧ pl.current = 3 ∧ pl.queue.length = 4) (by decide)
  refine ⟨pl, hpl, hplay, hcur, ?_⟩
  exact hpl.inv.deleteRange_stopped hplay (by rw [hlen]; decide) 3

end Playlist

end Mpd
