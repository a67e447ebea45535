import Mpd.Playlist.Deletion

/-!
# The playlist: going on to the next song

`playlist_next` and the events of the player thread. In consume mode both delete the song that
was current before; the deletion never concerns the new current song, except when the queued
song that has started is the one that was playing already.
-/

namespace Mpd

open Arrangement

namespace Playlist

variable {σ : Type} {pl pl' : Playlist σ}

theorem nextOrder_ne_of_consume {q : Queue σ} (hconsume : q.consume = true) (o : ℕ) :
    q.nextOrder o ≠ o := by
  simp only [Queue.nextOrder, hconsume, Bool.not_true, Bool.and_false, Bool.or_false,
    Bool.and_eq_true, decide_eq_true_eq, Bool.false_eq_true, if_false]
  split_ifs <;> omega

/-! ### The queued song has started -/

theorem Inv.started (h : pl.Inv) (hqueued : pl.queued ≠ -1) :
    Inv { pl with current := pl.queued, queued := -1 } := by
  have hge := h.queued_ge
  exact ⟨⟨h.queue, hge, h.queued_lt, h.updates⟩, fun _ => by dsimp only; omega, le_rfl,
    by dsimp only; omega, fun _ => rfl⟩

theorem Inv.started_designated_ne (h : pl.Inv) (hplay : pl.playing = true)
    (hqueued : pl.queued ≠ -1) (hne : pl.queued ≠ pl.current) :
    designated { pl with current := pl.queued, queued := -1 } ≠
      some (pl.queue.order pl.current.toNat) := by
  intro hdes
  have h0 := h.playing hplay
  have hlt := h.current_lt
  have hge := h.queued_ge
  have hlt' := h.queued_lt
  rw [(h.started hqueued).designated_eq (by dsimp only; omega), Option.some.injEq] at hdes
  have := h.queue.order_inj (show pl.queued.toNat < pl.queue.length by omega) (by omega) hdes
  omega

theorem Inv.started_mayDelete (h : pl.Inv) (hplay : pl.playing = true) (hqueued : pl.queued ≠ -1)
    (hmay : pl.queued = pl.current → pl.MayDelete (fun x => pl.designated = some x) 1) :
    MayDelete { pl with current := pl.queued, queued := -1 }
      (fun x => x = pl.queue.order pl.current.toNat) 1 := by
  by_cases heq : pl.queued = pl.current
  · -- the song that was playing has started again
    have hmay : MayDelete _ (fun x => x = pl.queue.order pl.current.toNat) _ := (hmay heq).congr
      (fun x => by rw [h.designated_eq (h.playing hplay), Option.some.injEq, eq_comm]) le_rfl
    rw [heq]
    exact hmay
  · exact mayDelete_of_ne (h.started_designated_ne hplay hqueued heq)

/-! ### Going on to the next song -/

variable [Qsort]

/-- What the first half of `playlist_next` does: in random mode the order is shuffled, when the
end of the queue has been reached. -/
structure Advanced (pl pl' : Playlist σ) : Prop where
  inv : pl'.Inv
  current : pl'.current = pl.queue.nextOrder pl.current.toNat
  queue : if pl.queue.nextOrder pl.current.toNat ≤ 0 ∧ pl.queue.random = true then
    pl.queue.shuffleOrder = .ok pl'.queue else pl'.queue = pl.queue

theorem Advanced.songs (h : Advanced pl pl') : pl.queue.SameSongs pl'.queue := by
  have hqueue := h.queue
  split at hqueue
  · exact (pl.queue.shuffleOrder_succeeds.yields _ hqueue).1
  · rw [hqueue]
    exact .refl

theorem Inv.advance_succeeds (h : pl.Inv) (hplay : pl.playing = true) :
    pl.advance.Succeeds (Advanced pl) := by
  have h0 := h.playing hplay
  have hlt := h.current_lt
  have hcases := nextOrder_cases pl.queue (o := pl.current.toNat) (by omega)
  rw [advance, h.unsigned_current h0]
  refine .ite (fun hneg => ?_) fun hnn => ?_
  · -- no next song: playback stops
    have heq : pl.queue.nextOrder pl.current.toNat = -1 := by
      rcases hcases with heq | ⟨n, -, heq⟩ <;> omega
    have hadv : ∀ pl' : Playlist σ, pl'.Core → pl'.playing = false → pl'.queued = -1 →
        (if pl.queue.random = true then pl.queue.shuffleOrder = .ok pl'.queue
          else pl'.queue = pl.queue) → Advanced pl { pl' with current := -1 } := by
      intro pl' hcore hplay' hqueued hqueue
      refine ⟨.of_stopped ⟨hcore.queue, le_rfl, ?_, hcore.updates⟩ hplay' hqueued, heq.symm, ?_⟩
      · show -1 < (pl'.queue.length : ℤ)
        omega
      · simpa only [heq, show (-1 : ℤ) ≤ 0 by decide, true_and] using hqueue
    cases hrandom : pl.queue.random with
    | false =>
      rw [pl.stop_of_normal hplay hrandom]
      exact .ok (hadv _ h.toCore.halted rfl rfl (by rw [hrandom]; rfl))
    | true =>
      rw [pl.stop_of_random hplay hrandom]
      refine (h.toCore.halted.reshuffle_succeeds hrandom h0).bind fun pl' hpl' => ?_
      refine .ok (hadv pl' (hpl'.core h.toCore.halted hrandom) ?_ ?_ ?_)
      · rw [hpl'.frame]
        rfl
      · rw [hpl'.frame]
        rfl
      · rw [hrandom]
        exact hpl'.shuffle
  · obtain ⟨n, hn, heq⟩ : ∃ n < pl.queue.length, pl.queue.nextOrder pl.current.toNat = (n : ℕ) := by
      rcases hcases with heq | hex
      · omega
      · exact hex
    refine .ite (fun hzero => ?_) fun hnz => ?_
    · -- the cycle starts again, in a new order
      obtain ⟨q, hshuffle, hq⟩ := pl.queue.shuffleOrder_succeeds
      have hinv := h.queue.of_rearranged hzero.2 hq.1 hq.2.1
      have hlen : q.length = pl.queue.length := by rw [hq.1]; rfl
      rw [hshuffle, Except.ok_bind, heq]
      refine (playOrder_succeeds { pl with queue := q } hinv h.updates (hlen.symm ▸ hn)).mono ?_
      rintro pl' ⟨hinv', hqueue, hcur⟩
      refine ⟨hinv', hcur.trans heq.symm, ?_⟩
      rw [if_pos ⟨hzero.1.le, hzero.2⟩, hqueue]
      exact hshuffle
    · rw [heq]
      refine (pl.playOrder_succeeds h.queue h.updates hn).mono ?_
      rintro pl' ⟨hinv', hqueue, hcur⟩
      refine ⟨hinv', hcur.trans heq.symm, ?_⟩
      rwa [if_neg fun hc => hnz ⟨by omega, hc.2⟩]

theorem Advanced.designated_ne (h : Advanced pl pl') (hpl : pl.Inv) (hplay : pl.playing = true)
    (hconsume : pl.queue.consume = true) :
    pl'.designated ≠ some (pl'.queue.order pl.current.toNat) := by
  intro hdes
  have h0 := hpl.playing hplay
  have hlt := hpl.current_lt
  have hlen : pl'.queue.length = pl.queue.length := by rw [h.songs]; rfl
  have h0' : 0 ≤ pl'.current := by
    by_contra hneg
    rw [designated_of_neg (by omega)] at hdes
    cases hdes
  have hlt' := h.inv.current_lt
  rw [h.inv.designated_eq h0', Option.some.injEq] at hdes
  have heq := h.inv.queue.order_inj (by omega) (by omega) hdes
  refine nextOrder_ne_of_consume hconsume pl.current.toNat ?_
  have := h.current
  omega

variable [DecidableEq σ] [SongRef σ]

theorem Inv.consumeSong_succeeds (h : pl.Inv) {c : ℕ} (hc : c < pl.queue.length)
    (hmay : pl.queue.consume = true → pl.MayDelete (fun x => x = pl.queue.order c) 1) :
    (pl.consumeSong c).Succeeds fun pl' => pl'.Inv ∧
      (pl.queue.consume = true → Deleted pl (pl.queue.order c) pl') := by
  refine .ite (fun hconsume => ?_) fun hconsume =>
    .ok ⟨h, fun hc => absurd hc hconsume⟩
  have hn := h.queue.length_lt
  rw [unsigned_natCast (by omega), Queue.orderToPosition_eq hc, Except.ok_bind]
  refine (h.delete_succeeds (D := fun x => x = pl.queue.order c) (h.queue.order_lt hc) rfl
    (fun _ hx => hx.le) (hmay hconsume)).bind ?_
  rintro ⟨pl', status⟩ ⟨hdel, -⟩
  exact .ok ⟨hdel.inv, fun _ => hdel⟩

/-- **Next song.** In consume mode, the song deleted is the one that has the old order number in
the new order. -/
theorem Inv.next_succeeds (h : pl.Inv) : pl.next.Succeeds fun pl' => pl'.Inv ∧
    (pl.playing = true → pl.queue.consume = true → ∃ pl₁ : Playlist σ,
      Advanced { pl with stopOnError := false } pl₁ ∧
        Deleted pl₁ (pl₁.queue.order pl.current.toNat) pl') := by
  refine .ite (fun hplay => ?_) fun hplay =>
    .ok ⟨h, fun hp => absurd hp hplay⟩
  have h₀ := h.goingOn
  have h0 := h.playing hplay
  have hlt := h.current_lt
  refine (h₀.advance_succeeds hplay).bind fun pl₁ hadv => ?_
  have hlen : pl₁.queue.length = pl.queue.length := by rw [hadv.songs]; rfl
  have hconsume : pl₁.queue.consume = pl.queue.consume := by rw [hadv.songs]; rfl
  have hcur : pl.current = (pl.current.toNat : ℕ) := (Int.toNat_of_nonneg h0).symm
  have hc : pl.current.toNat < pl₁.queue.length := by omega
  have hdel := hadv.inv.consumeSong_succeeds hc fun hcons =>
    mayDelete_of_ne (hadv.designated_ne h₀ hplay (hconsume.symm.trans hcons))
  rw [← hcur] at hdel
  exact hdel.mono fun pl' hpl' =>
    ⟨hpl'.1, fun _ hcons => ⟨pl₁, hadv, hpl'.2 (hconsume.trans hcons)⟩⟩

/-! ### Player events -/

theorem Inv.songStarted_succeeds (h : pl.Inv) (hplay : pl.playing = true) (hqueued : pl.queued ≠ -1)
    (hmay : pl.queue.consume = true → pl.queued = pl.current →
      pl.MayDelete (fun x => pl.designated = some x) 1) : pl.songStarted.Succeeds Inv := by
  obtain ⟨hcur, ho⟩ := h.current_bounds hplay
  rw [songStarted, hcur]
  refine ((h.started hqueued).consumeSong_succeeds ho fun hcons => ?_).mono fun pl' hpl' => hpl'.1
  exact h.started_mayDelete hplay hqueued (hmay hcons)

theorem Inv.resumePlayback_succeeds (h : pl.Inv) : pl.resumePlayback.Succeeds Inv := by
  have h₁ : ∀ count, Inv { pl.seen with errorCount := count } := fun count =>
    h.congr rfl rfl rfl rfl rfl
  refine .branch ?_ ?_
  · exact (h₁ _).stop_succeeds.mono fun pl' hpl' => hpl'.1
  · exact (h₁ _).next_succeeds.mono fun pl' hpl' => hpl'.1

omit [SongRef σ] in
theorem Inv.syncQueued_succeeds (h : pl.Inv) : pl.syncQueued.Succeeds Inv := by
  refine .ite (fun hc => ?_) fun _ => .ok h.seen
  have hedit : pl.seen.Editing none :=
    ⟨h.seen.toCore, h.playing, h.queued_ge, h.stopped, iff_of_true hc.2 rfl⟩
  exact hedit.updateQueuedSong_succeeds.mono fun pl' hpl' => hpl'.1

def MaySync (pl : Playlist σ) : Prop :=
  pl.queue.consume = true → pl.queued = pl.current → pl.pc.view.state ≠ .stop →
    pl.pc.view.nextSong = none → pl.seen.MayDelete (fun x => pl.designated = some x) 1

/-- **Player event.** -/
theorem Inv.sync_succeeds (h : pl.Inv) (hmay : pl.MaySync) : pl.sync.Succeeds Inv := by
  refine .ite (fun hplay => ?_) fun _ => .ok h
  refine .ite (fun _ => h.seen.resumePlayback_succeeds) fun hstate => ?_
  have hstarted : (pl.seen.syncStarted pl.pc.view.nextSong).Succeeds Inv := by
    refine .ite (fun hc => ?_) fun _ => .ok h.seen
    exact h.seen.songStarted_succeeds hplay hc.2 fun hcons heq => hmay hcons heq hstate hc.1
  exact hstarted.bind fun pl' hpl' => hpl'.syncQueued_succeeds

end Playlist

end Mpd
