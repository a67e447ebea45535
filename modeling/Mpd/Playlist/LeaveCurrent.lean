import Mpd.General.Rank
import Mpd.Queue.Contents
import Mpd.Playlist.CurrentSong

/-!
# The playlist: leaving the current song

Two operations take the song that is being played out of the queue: `playlist_delete`, and
`playlist_next` in consume mode. Both remember an order number while the order may be shuffled. The
results here say exactly when they do the right thing for every outcome of the shuffle: playback
goes on with the song that came next, and no other song is deleted.
-/

namespace Mpd

open Except Arrangement

namespace Playlist

variable {σ : Type} {pl pl' : Playlist σ} {prev : Option σ} {o n : ℕ}

/-! ### An outdated order number -/

theorem Core.removed_currentId_iff (h : pl.Core) {x y : ℕ} (hx : pl.current = x)
    (hy : y < pl.queue.length) (hxy : x ≠ y) :
    (pl.removed (pl.queue.order y) y o).currentId = pl.currentId ↔ (o < x ↔ y < x) := by
  have hlt := h.current_lt
  have hx' : x < pl.queue.length := by omega
  -- `current` may as well have been another order number `c`, and the comparison right
  have hother : ∀ c : ℕ, c < pl.queue.length → c ≠ y →
      (if (o : ℤ) < pl.current then pl.current - 1 else pl.current) =
        (if (y : ℤ) < c then (c : ℤ) - 1 else c) →
      (pl.removed (pl.queue.order y) y o).currentId =
        some (pl.queue.items (pl.queue.order c)).id := by
    intro c hc hcy hcur
    have hcore : Core { pl with current := c } :=
      ⟨h.queue, show -1 ≤ (c : ℤ) by omega, Int.ofNat_lt.mpr hc, h.updates⟩
    have heq : pl.removed (pl.queue.order y) y o =
        Playlist.removed { pl with current := c } (pl.queue.order y) y y := by
      rw [Playlist.removed, Playlist.removed, hcur]
    rw [heq]
    refine (hcore.removed_currentId hy (show (c : ℤ) ≠ y by omega)).trans ?_
    exact currentId_natCast rfl hc
  have hids : ∀ c < pl.queue.length, c ≠ x → some (pl.queue.items (pl.queue.order c)).id ≠
      some (pl.queue.items (pl.queue.order x)).id := by
    intro c hc hcx hid
    have hpos := h.queue.indexed.injOn (h.queue.order_lt hc) (h.queue.order_lt hx')
      (Option.some.inj hid)
    exact hcx (h.queue.order_inj hc hx' hpos)
  rw [currentId_natCast hx hx']
  constructor
  · intro hid
    by_contra hside
    rcases lt_or_ge o x with hox | hox
    · -- decremented, although the song stands before the removed one
      rw [hother (x - 1) (by omega) (by omega) (by split <;> split <;> omega)] at hid
      exact hids _ (by omega) (by omega) hid
    · -- not decremented, although the song stands behind the removed one
      rcases lt_or_ge (x + 1) pl.queue.length with hlast | hlast
      · rw [hother (x + 1) hlast (by omega) (by split <;> split <;> omega)] at hid
        exact hids _ hlast (by omega) hid
      · have hnone : (pl.removed (pl.queue.order y) y o).designated = none := by
          refine if_neg fun hc => ?_
          have hc₂ : (if (o : ℤ) < pl.current then pl.current - 1 else pl.current) <
            (pl.queue.deleted (pl.queue.order y) y).length := hc.2
          rw [Queue.deleted_length, if_neg (by omega)] at hc₂
          omega
        rw [currentId, hnone] at hid
        cases hid
  · intro hside
    exact hother x hx' hxy (by split <;> split <;> omega)

/-! ### Deleting the current song -/

section Delete

variable [Qsort] [DecidableEq σ] [SongRef σ]

/-- **The next song takes the place of the deleted one.** -/
def DeletesCurrent (pl : Playlist σ) : Prop :=
  (pl.delete (pl.queue.order pl.current.toNat)).Succeeds fun r =>
    r.1.currentId = pl.successorId pl.current.toNat ∧
    (pl.successorId pl.current.toNat = none → r.1.current = -1) ∧
    r.1.queue.contents = pl.queue.contents.eraseIdx (pl.queue.order pl.current.toNat)
  deriving Decidable

/-- Priorities fix the place of the next song in a shuffled order. -/
def ShuffleKeepsNext (pl : Playlist σ) : Prop :=
  let o := pl.current.toNat
  let count := pl.queue.length
  let current := pl.queue.priorityAt (pl.queue.order o)
  let next := pl.queue.priorityAt (pl.queue.order (pl.queue.nextOrder o).toNat)
  next < current ∧ o < above pl.queue.priorityAt count next ∨
  current < next ∧ atLeast pl.queue.priorityAt count next ≤ o + 1 ∨
  next = current ∧
    atLeast pl.queue.priorityAt count next = above pl.queue.priorityAt count next + 2 ∧
    o = above pl.queue.priorityAt count next

theorem Inv.deletesCurrent (h : pl.Inv) (hplay : pl.playing = true)
    (hnext : pl.queue.random = true → ¬ pl.Paused ∧ pl.successorId pl.current.toNat ≠ none) :
    pl.DeletesCurrent := by
  obtain ⟨hcur, ho⟩ := h.current_bounds hplay
  have hhas : pl.queue.random = true → pl.HasNext pl.current.toNat := by
    intro hrandom
    obtain ⟨hpause, hsucc⟩ := hnext hrandom
    unfold successorId at hsucc
    dsimp only at hsucc
    split at hsucc
    · next hc => exact ⟨hc.1, hc.2, fun hp => absurd hp hpause⟩
    · exact absurd rfl hsucc
  rw [DeletesCurrent, delete, if_neg (not_le.mpr (h.queue.order_lt ho))]
  refine h.getQueuedSong_succeeds.bind fun prev hprev => ?_
  refine (hprev.deleteCurrent_succeeds ho hcur hplay hhas).bind ?_
  rintro ⟨pl₁, prev₁⟩ h₁
  refine h₁.editing.finishEdit_succeeds.mono fun r hr => ?_
  have hdel := hr.1.deleted h.toCore ho h₁
  obtain ⟨hid, hnone⟩ := hdel.next hplay (h.designated_eq (h.playing hplay)) fun hrandom =>
    (hnext hrandom).1
  exact ⟨hid, hnone, Queue.contents_eq_eraseIdx (h.queue.order_lt ho) hdel.length hdel.items⟩

theorem Inv.not_deletesCurrent (h : pl.Inv) (hplay : pl.playing = true)
    (hrandom : pl.queue.random = true) (hsucc : pl.successorId pl.current.toNat = none) :
    ¬ pl.DeletesCurrent := by
  obtain ⟨hcur, ho⟩ := h.current_bounds hplay
  have hnext : pl.queue.nextOrder pl.current.toNat = -1 ∨
      pl.queue.nextOrder pl.current.toNat = pl.current.toNat := by
    rcases nextOrder_cases pl.queue ho with heq | ⟨n, hn, heq⟩
    · exact .inl heq
    · by_contra hc
      rw [successorId_of_next heq (by omega)] at hsucc
      cases hsucc
  obtain ⟨prev, hprev, -⟩ := h.getQueuedSong_succeeds
  rw [DeletesCurrent, delete, if_neg (not_le.mpr (h.queue.order_lt ho)), hprev, ok_bind,
    deleteInternal, h.queue.positionToOrder_order ho, ok_bind, leaveSong_current hplay hcur,
    h.replaceCurrent_fault hcur hplay hrandom hnext]
  exact not_succeeds_error

omit [SongRef σ] in
theorem finishEdit_of_stopped (hplay : pl.playing = false) (prev : Option σ) :
    pl.finishEdit prev = .ok (pl.incrementVersion, .success) := by
  have hupdate : pl.incrementVersion.updateQueuedSong prev = .ok pl.incrementVersion :=
    if_neg (show ¬ pl.playing = true by simp [hplay])
  rw [finishEdit, hupdate]
  rfl

section

variable (h : pl.Inv) (hplay : pl.playing = true) (hrandom : pl.queue.random = true)
  (hpause : pl.Paused) (hcur : pl.current = o) (hnext : pl.queue.nextOrder o = n)
  (hn : n < pl.queue.length) (hne : n ≠ o)
include h hplay hrandom hpause hcur hnext hn hne

theorem Inv.deletesCurrent_paused_iff
    {q' : Queue σ} (hshuffle : pl.queue.shuffleOrder = .ok q') {x y : ℕ} (hx : x < pl.queue.length)
    (hy : y < pl.queue.length) (hqx : q'.order x = pl.queue.order n)
    (hqy : q'.order y = pl.queue.order o) : pl.DeletesCurrent ↔ (o < x ↔ y < x) := by
  have hlt := h.current_lt
  have ho : o < pl.queue.length := by omega
  obtain ⟨prev, hprev, -⟩ := h.getQueuedSong_succeeds
  obtain ⟨pl₁, hpl₁, hre⟩ := h.replaceCurrent_random hcur hplay hrandom hnext hn hne hpause
  obtain rfl : q' = pl₁.queue := ok.inj (hshuffle.symm.trans hre.shuffle)
  have hcore : pl₁.Core := by
    refine hre.core ⟨h.queue, ?_, Int.ofNat_lt.mpr hn, h.updates⟩ hrandom
    show -1 ≤ (n : ℤ)
    omega
  have hlen : pl₁.queue.length = pl.queue.length := by rw [hre.songs]; rfl
  have hitems : pl₁.queue.items = pl.queue.items := by rw [hre.songs]; rfl
  have hplay₁ : pl₁.playing = false := by rw [hre.frame]
  have hxcur : pl₁.current = x := by
    obtain ⟨x', hx', hlt', hqx'⟩ := hre.current
    have hxx : x' = x := hcore.queue.order_inj (hlen.symm ▸ hlt') (hlen.symm ▸ hx)
      (hqx'.trans hqx.symm)
    rw [hx', hxx]
  have hxy : x ≠ y := by
    rintro rfl
    exact hne (h.queue.order_inj hn ho (hqx.symm.trans hqy))
  -- the whole of `playlist_delete`
  obtain ⟨pl₂, hpl₂, hsame⟩ := pl₁.removeSong_succeeds hcore.queue (hlen.symm ▸ hy) o
  have hdelete : pl.delete (pl.queue.order o) = .ok (pl₂.incrementVersion, .success) := by
    rw [delete, if_neg (not_le.mpr (h.queue.order_lt ho)), hprev, ok_bind, deleteInternal,
      h.queue.positionToOrder_order ho, ok_bind, leaveSong_current hplay hcur, hpl₁, ← hqy]
    show (pl₁.removeSong (pl₁.queue.order y) o >>= fun pl => pure (pl, (none : Option σ))) >>= _ = _
    rw [hpl₂]
    exact finishEdit_of_stopped (hsame.playing_eq.trans hplay₁) none
  have hid : pl₂.incrementVersion.currentId = (pl₁.removed (pl₁.queue.order y) y o).currentId :=
    (incrementVersion_currentId pl₂).trans hsame.currentId_eq
  have hcontents : pl₂.incrementVersion.queue.contents =
      pl.queue.contents.eraseIdx (pl.queue.order o) := by
    refine (Queue.incrementVersion_contents pl₂.queue).trans ?_
    rw [hsame.queue_eq, ← hre.songs.contents_eq, ← hqy]
    exact Queue.contents_eq_eraseIdx (hcore.queue.order_lt (hlen.symm ▸ hy))
      (Queue.deleted_length pl₁.queue _ y) fun _ => rfl
  have hsucc : pl.successorId o = pl₁.currentId := by
    rw [successorId_of_next hnext hne, currentId_natCast hxcur (hlen.symm ▸ hx), hqx, hitems]
  rw [DeletesCurrent, show pl.current.toNat = o by omega, hdelete, succeeds_ok, hid, hsucc,
    ← hcore.removed_currentId_iff hxcur (hlen.symm ▸ hy) hxy]
  refine ⟨fun hr => hr.1, fun hr => ⟨hr, fun hnone => ?_, hcontents⟩⟩
  rw [← hsucc, successorId_of_next hnext hne] at hnone
  cases hnone

theorem Inv.forall_deletesCurrent_paused_iff : (∀ r, (pl.withDraws r).DeletesCurrent) ↔
      SameSide pl.queue.priorityAt pl.queue.length pl.queue.order o (pl.queue.order n)
        (pl.queue.order o) := by
  have ho : o < pl.queue.length := by
    have := h.current_lt
    omega
  rw [SameSide, ← Queue.forall_shuffleOrder_iff]
  constructor
  · intro hall r q' hq' x hx y hy hqx hqy
    exact ((h.withDraws r).deletesCurrent_paused_iff hplay hrandom hpause hcur hnext hn hne hq' hx
      hy hqx hqy).mp (hall r)
  · intro hside r
    obtain ⟨q', hq', -, hre, -⟩ := (pl.withDraws r).queue.shuffleOrder_succeeds
    obtain ⟨x, hx, hqx⟩ := hre.exists_place_eq h.queue.order_bijOn (h.queue.order_lt hn)
    obtain ⟨y, hy, hqy⟩ := hre.exists_place_eq h.queue.order_bijOn (h.queue.order_lt ho)
    exact ((h.withDraws r).deletesCurrent_paused_iff hplay hrandom hpause hcur hnext hn hne hq' hx
      hy hqx hqy).mpr (hside r q' hq' x hx y hy hqx hqy)

end

/-- **Deleting the current song** while it is played does the right thing, for all outcomes of the
random generator, exactly in normal mode, or if there is a next song, and, while paused, no shuffle
can bring it to the wrong side of the deleted one. -/
theorem deletesCurrent_iff (h : pl.Inv) (hplay : pl.playing = true) :
    (∀ r, (pl.withDraws r).DeletesCurrent) ↔ pl.queue.random = false ∨
      pl.successorId pl.current.toNat ≠ none ∧ (pl.Paused → pl.ShuffleKeepsNext) := by
  obtain ⟨hcur, ho⟩ := h.current_bounds hplay
  cases hrandom : pl.queue.random with
  | false =>
    refine iff_of_true (fun r => (h.withDraws r).deletesCurrent hplay fun hr => ?_) (.inl rfl)
    exact absurd (hrandom.symm.trans hr) (by decide)
  | true =>
    rw [or_iff_right (show ¬ true = false by decide)]
    rcases nextOrder_cases pl.queue ho with heq | ⟨n, hn, hnext⟩
    · have hnone : pl.successorId _ = none := successorId_eq_none (.inl heq)
      refine iff_of_false (fun hall => ?_) fun hc => hc.1 hnone
      exact (h.withDraws pl.queue.rand).not_deletesCurrent hplay hrandom hnone (hall _)
    rcases eq_or_ne n pl.current.toNat with rfl | hne
    · have hnone : pl.successorId _ = none := successorId_eq_none (.inr hnext)
      refine iff_of_false (fun hall => ?_) fun hc => hc.1 hnone
      exact (h.withDraws pl.queue.rand).not_deletesCurrent hplay hrandom hnone (hall _)
    have hsucc : pl.successorId pl.current.toNat ≠ none := by
      rw [successorId_of_next hnext hne]
      exact Option.some_ne_none _
    by_cases hpause : pl.Paused
    · have hside := sameSide_iff h.queue.order_bijOn pl.queue.exists_descending
        (h.queue.order_lt hn) (h.queue.order_lt ho)
        (fun heq => hne (h.queue.order_inj hn ho heq)) pl.current.toNat
      rw [h.forall_deletesCurrent_paused_iff hplay hrandom hpause hcur hnext hn hne, hside,
        ShuffleKeepsNext, hnext, Int.toNat_natCast]
      exact ⟨fun hs => ⟨hsucc, fun _ => hs⟩, fun hc => hc.2 hpause⟩
    · refine iff_of_true (fun r => ?_) ⟨hsucc, fun hp => absurd hp hpause⟩
      exact (h.withDraws r).deletesCurrent hplay fun _ => ⟨hpause, hsucc⟩

end Delete

theorem deletesCurrent_first : ∃ pl, Reached pl ∧ pl.playing = true ∧
      pl.queue.random = true ∧ pl.current = 0 ∧ ∀ r, (pl.withDraws r).DeletesCurrent := by
  obtain ⟨pl, hpl, hplay, hrandom, hcur, hsucc, hpause⟩ := exists_reached
    [.appendSong 10, .appendSong 11, .setRandom true, .play (-1)]
    (P := fun pl => pl.playing = true ∧ pl.queue.random = true ∧ pl.current = 0 ∧
      pl.successorId 0 ≠ none ∧ ¬ pl.Paused) (by decide)
  refine ⟨pl, hpl, hplay, hrandom, hcur,
    (deletesCurrent_iff hpl.inv hplay).mpr (.inr ⟨?_, ?_⟩)⟩
  · rwa [hcur]
  · exact fun hp => absurd hp hpause

theorem not_deletesCurrent_last : ∃ pl : Playlist ℕ,
    Reaches Op.run Op.Safe (numbered .pause fun _ => 1) pl ∧ pl.playing = true ∧
      pl.queue.random = true ∧ pl.current = 1 ∧ pl.queue.nextOrder 1 = 0 ∧
      ((pl.delete (pl.queue.order 1)).Succeeds fun r => r.1.current = 1 ∧ r.1.queue.length = 1) ∧
      ¬ pl.DeletesCurrent :=
  exists_reaches _ _ _ [.appendSong 10, .appendSong 11, .setRandom true,
    .setRepeat true, .play (-1), .next] (by decide +kernel)

/-! ### Consuming the current song -/

/-- **The song that is left is deleted, and no other.** -/
def ConsumesCurrent [Qsort] [DecidableEq σ] [SongRef σ] (pl : Playlist σ) : Prop :=
  pl.next.Succeeds fun pl' =>
    pl'.queue.contents = pl.queue.contents.eraseIdx (pl.queue.order pl.current.toNat)
  deriving Decidable

theorem Inv.consumesCurrent_iff_order [Qsort] [DecidableEq σ] [SongRef σ] (h : pl.Inv)
    (hplay : pl.playing = true) (hconsume : pl.queue.consume = true) :
    pl.ConsumesCurrent ↔ (pl.queue.random = true → pl.queue.length ≤ pl.current.toNat + 1 →
      ∀ q', pl.queue.shuffleOrder = .ok q' →
        q'.order pl.current.toNat = pl.queue.order pl.current.toNat) := by
  obtain ⟨hcur, ho⟩ := h.current_bounds hplay
  obtain ⟨pl', hrun, -, hadv⟩ := h.next_succeeds
  obtain ⟨pl₁, hadv, hdel⟩ := hadv hplay hconsume
  have hlen : pl₁.queue.length = pl.queue.length := by rw [hadv.songs]; rfl
  have ho₁ : pl₁.queue.order pl.current.toNat < pl₁.queue.length :=
    hadv.inv.queue.order_lt (hlen.symm ▸ ho)
  have hcontents : pl'.queue.contents =
      pl.queue.contents.eraseIdx (pl₁.queue.order pl.current.toNat) := by
    rw [Queue.contents_eq_eraseIdx ho₁ hdel.length hdel.items]
    rw [hadv.songs.contents_eq]
  have hiff : pl.ConsumesCurrent ↔
      pl₁.queue.order pl.current.toNat = pl.queue.order pl.current.toNat := by
    rw [ConsumesCurrent, hrun, succeeds_ok, hcontents]
    refine ⟨fun heq => ?_, fun heq => by rw [heq]⟩
    exact h.queue.eraseIdx_inj (hlen ▸ ho₁) (h.queue.order_lt ho) heq
  -- the order is shuffled only at the end of the queue
  have hend : pl.queue.nextOrder pl.current.toNat ≤ 0 ↔ pl.queue.length ≤ pl.current.toNat + 1 := by
    simp only [Queue.nextOrder, hconsume, Bool.not_true, Bool.and_false, Bool.or_false,
      Bool.false_eq_true, if_false]
    split_ifs <;> omega
  rw [hiff]
  have hqueue := hadv.queue
  split at hqueue
  · next hc =>
    refine ⟨fun heq _ _ q' hq' => ?_, fun hall => hall hc.2 (hend.mp hc.1) _ hqueue⟩
    rw [hqueue] at hq'
    cases hq'
    exact heq
  · next hc =>
    rw [hqueue]
    exact iff_of_true rfl fun hr hl => absurd ⟨hend.mpr hl, hr⟩ hc

/-- **Consume mode.** The next song is played and exactly the current one removed, for all outcomes
of the random generator, exactly in normal mode, or if the current song is not the last in the
order, or if every other song has a greater priority. -/
theorem consumesCurrent_iff [Qsort] [DecidableEq σ] [SongRef σ] (h : pl.Inv)
    (hplay : pl.playing = true) (hconsume : pl.queue.consume = true) :
    (∀ r, (pl.withDraws r).ConsumesCurrent) ↔ pl.queue.random = false ∨
      pl.current + 1 < pl.queue.length ∨
      ∀ p < pl.queue.length, p ≠ pl.queue.order pl.current.toNat →
        pl.queue.priorityAt (pl.queue.order pl.current.toNat) < pl.queue.priorityAt p := by
  obtain ⟨hcur, ho⟩ := h.current_bounds hplay
  have hall : (∀ r, (pl.withDraws r).ConsumesCurrent) ↔
      (pl.queue.random = true → pl.queue.length ≤ pl.current.toNat + 1 →
        ∀ r q', Queue.shuffleOrder { pl.queue with rand := r } = .ok q' →
          q'.order pl.current.toNat = pl.queue.order pl.current.toNat) := by
    refine (forall_congr' fun r =>
      (h.withDraws r).consumesCurrent_iff_order hplay hconsume).trans ?_
    exact ⟨fun hr h₁ h₂ r => hr r h₁ h₂, fun hr r h₁ h₂ => hr h₁ h₂ r⟩
  rw [hall]
  cases hrandom : pl.queue.random with
  | false => exact iff_of_true (fun hr => absurd hr (by decide)) (.inl rfl)
  | true =>
    rw [or_iff_right (show ¬ true = false by decide)]
    by_cases hc : pl.current + 1 < pl.queue.length
    · exact iff_of_true (fun _ hl => absurd hl (by omega)) (.inl hc)
    · -- the current song is the last one in the order
      have hlast : pl.current.toNat = pl.queue.length - 1 := by omega
      have hl : pl.queue.length ≤ pl.current.toNat + 1 := by omega
      rw [or_iff_right hc, ← Arrangement.forall_last_iff h.queue.order_bijOn
        pl.queue.exists_descending (h.queue.order_lt ho), ← hlast,
        ← pl.queue.forall_shuffleOrder_iff]
      exact ⟨fun hr => hr rfl hl, fun hr _ _ => hr⟩

theorem consumesCurrent_first : ∃ pl, Reached pl ∧ pl.playing = true ∧
      pl.queue.consume = true ∧ pl.queue.random = true ∧ pl.current = 0 ∧
      ∀ r, (pl.withDraws r).ConsumesCurrent := by
  obtain ⟨pl, hpl, hplay, hconsume, hrandom, hcur, hlen⟩ := exists_reached
    [.appendSong 10, .appendSong 11, .setRandom true, .setConsume true, .play (-1)]
    (P := fun pl => pl.playing = true ∧ pl.queue.consume = true ∧ pl.queue.random = true ∧
      pl.current = 0 ∧ pl.queue.length = 2) (by decide)
  exact ⟨pl, hpl, hplay, hconsume, hrandom, hcur,
    (consumesCurrent_iff hpl.inv hplay hconsume).mpr
      (.inr (.inl (by omega)))⟩

theorem not_consumesCurrent_last : ∃ pl : Playlist ℕ,
    Reaches Op.run Op.Safe (numbered .play fun _ => 1) pl ∧ pl.playing = true ∧
      pl.queue.consume = true ∧ pl.queue.random = true ∧ pl.current = 1 ∧
      pl.queue.order 1 = 0 ∧ (pl.queue.items 0).song = 10 ∧
      (pl.next.Succeeds fun pl' => pl'.queue.length = 1 ∧ (pl'.queue.items 0).song = 10) ∧
      ¬ pl.ConsumesCurrent :=
  exists_reaches _ _ _ [.appendSong 10, .appendSong 11, .setRandom true, .play (-1),
    .next, .setConsume true] (by decide +kernel)

end Playlist

end Mpd
