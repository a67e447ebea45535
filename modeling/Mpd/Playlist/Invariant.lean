import Mpd.Playlist.Control
import Mpd.Queue.Priority

/-!
# The playlist: the invariant of `current` and `queued`

`pl.Inv` says that the queue is consistent and that `current` and `queued` are order numbers of
the queue or `-1`, with a current song whenever the playlist is playing. In the middle of an
edit `queued` may be out of date; `pl.Editing prev` is what then still holds, together with the
song `prev` that the player was told to play next. `playlist_update_queued_song` leads back from
the second to the first (`Editing.updateQueuedSong_succeeds`).

Stopping and updating may shuffle the order array, but never lose the current song: `Keeps`.
-/

namespace Mpd

open Arrangement

variable {σ : Type}

namespace Playlist

variable {pl pl' pl'' : Playlist σ} {prev : Option σ}

def designated (pl : Playlist σ) : Option ℕ :=
  if 0 ≤ pl.current ∧ pl.current < pl.queue.length then some (pl.queue.order pl.current.toNat)
  else none

def currentId (pl : Playlist σ) : Option ℕ :=
  pl.designated.map fun p => (pl.queue.items p).id

theorem designated_natCast {c : ℕ} (hc : pl.current = c) (hlt : c < pl.queue.length) :
    pl.designated = some (pl.queue.order c) := by
  rw [designated, hc, if_pos ⟨by omega, by omega⟩, Int.toNat_natCast]

theorem designated_of_neg (h : pl.current < 0) : pl.designated = none :=
  if_neg (by omega)

theorem currentId_natCast {c : ℕ} (hc : pl.current = c) (hlt : c < pl.queue.length) :
    pl.currentId = some (pl.queue.items (pl.queue.order c)).id := by
  rw [currentId, designated_natCast hc hlt, Option.map_some]

theorem currentId_of_neg (h : pl.current < 0) : pl.currentId = none := by
  rw [currentId, designated_of_neg h, Option.map_none]

theorem currentId_congr (hlt : pl.current < pl.queue.length)
    (hneg : pl.current < 0 → pl'.current < 0)
    (hpos : ∀ c : ℕ, pl.current = c → c < pl.queue.length → ∃ c' : ℕ, pl'.current = c' ∧
      c' < pl'.queue.length ∧ (pl'.queue.items (pl'.queue.order c')).id =
        (pl.queue.items (pl.queue.order c)).id) : pl'.currentId = pl.currentId := by
  rcases lt_or_ge pl.current 0 with h | h
  · rw [currentId_of_neg h, currentId_of_neg (hneg h)]
  · obtain ⟨c, hc⟩ := Int.eq_ofNat_of_zero_le h
    have hlt' : c < pl.queue.length := by omega
    obtain ⟨c', hc', hlt'', hid⟩ := hpos c hc hlt'
    rw [currentId_natCast hc hlt', currentId_natCast hc' hlt'', hid]

/-- What holds of the queue and of `current` at any time. -/
structure Core (pl : Playlist σ) : Prop where
  queue : pl.queue.Inv
  current_ge : -1 ≤ pl.current
  current_lt : pl.current < pl.queue.length
  /-- whenever the queued song was updated in normal mode, it was set to the next one -/
  updates : ∀ u ∈ pl.updates, u.1 = u.2

/-- The playlist is consistent. -/
structure Inv (pl : Playlist σ) : Prop extends Core pl where
  playing : pl.playing = true → 0 ≤ pl.current
  queued_ge : -1 ≤ pl.queued
  queued_lt : pl.queued < pl.queue.length
  stopped : pl.playing = false → pl.queued = -1

/-- The playlist is being edited; `prev` is the song that was queued before. -/
structure Editing (pl : Playlist σ) (prev : Option σ) : Prop extends Core pl where
  playing : pl.playing = true → 0 ≤ pl.current
  queued_ge : -1 ≤ pl.queued
  stopped : pl.playing = false → pl.queued = -1
  prev_iff : pl.queued < 0 ↔ prev = none

theorem Inv.congr (h : pl.Inv) (hqueue : pl'.queue = pl.queue) (hcurrent : pl'.current = pl.current)
    (hplaying : pl'.playing = pl.playing) (hqueued : pl'.queued = pl.queued)
    (hupdates : pl'.updates = pl.updates) : pl'.Inv where
  queue := hqueue ▸ h.queue
  current_ge := hcurrent ▸ h.current_ge
  current_lt := hqueue ▸ hcurrent ▸ h.current_lt
  updates := hupdates ▸ h.updates
  playing hp := hcurrent ▸ h.playing (hplaying ▸ hp)
  queued_ge := hqueued ▸ h.queued_ge
  queued_lt := hqueue ▸ hqueued ▸ h.queued_lt
  stopped hp := hqueued ▸ h.stopped (hplaying ▸ hp)

theorem Core.unsigned_current (h : pl.Core) (h0 : 0 ≤ pl.current) :
    unsigned pl.current = pl.current.toNat := by
  have h₁ := h.current_lt
  have h₂ := h.queue.length_lt
  exact unsigned_eq h0 (by omega)

theorem Core.designated_eq (h : pl.Core) (h0 : 0 ≤ pl.current) :
    pl.designated = some (pl.queue.order pl.current.toNat) :=
  if_pos ⟨h0, h.current_lt⟩

theorem Inv.current_bounds (h : pl.Inv) (hplay : pl.playing = true) :
    pl.current = (pl.current.toNat : ℕ) ∧ pl.current.toNat < pl.queue.length := by
  have h0 := h.playing hplay
  have hlt := h.current_lt
  omega

/-! ### Access -/

theorem Inv.getQueuedSong_succeeds (h : pl.Inv) : pl.getQueuedSong.Succeeds pl.Editing := by
  have hedit : ∀ prev, (pl.queued < 0 ↔ prev = none) → pl.Editing prev := fun prev hprev =>
    ⟨h.toCore, h.playing, h.queued_ge, h.stopped, hprev⟩
  refine .ite (fun hq => ?_) fun hq => ?_
  · have h₁ := h.queued_lt
    have h₂ := h.queue.length_lt
    rw [unsigned_eq hq.2 (by omega), h.queue.getOrder_eq (by omega)]
    exact .ok (hedit _ (iff_of_false (by omega) (by simp)))
  · refine .ok (hedit none (iff_of_true ?_ rfl))
    cases hplay : pl.playing with
    | false =>
      have := h.stopped hplay
      omega
    | true =>
      rw [hplay] at hq
      simpa using hq

theorem Core.getCurrentSong_succeeds (h : pl.Core) : pl.getCurrentSong.Succeeds fun song =>
    song = pl.designated.elim (-1) fun p => (p : ℤ) := by
  refine .ite (fun h0 => ?_) fun hneg => ?_
  · have hlt := h.current_lt
    rw [h.unsigned_current h0, Queue.orderToPosition_eq (by omega), h.designated_eq h0]
    exact .ok rfl
  · rw [designated_of_neg (by omega)]
    exact .ok rfl

theorem Core.getNextSong_succeeds (h : pl.Core) : pl.getNextSong.Succeeds fun _ => True := by
  have hlt := h.current_lt
  have hn := h.queue.length_lt
  have hpos : ∀ o : ℤ, 0 ≤ o → o < pl.queue.length →
      ((fun position : ℕ => (position : ℤ)) <$>
        pl.queue.orderToPosition (unsigned o)).Succeeds fun _ => True := by
    intro o h₁ h₂
    rw [unsigned_eq h₁ (by omega), Queue.orderToPosition_eq (by omega)]
    exact .ok trivial
  refine .ite (fun h0 => ?_) fun _ => .ok trivial
  refine .branch (hpos _ h0 hlt) ?_
  refine .ite (fun h₁ => hpos _ (by omega) h₁) fun _ => ?_
  exact .branch (hpos _ le_rfl (by omega)) <| .ok trivial

/-! ### What stopping and updating keep -/

/-- The songs are the same, and `current` designates the same one; in normal mode the queue is
the same altogether. -/
structure Keeps (pl pl' : Playlist σ) : Prop where
  songs : pl.queue.SameSongs pl'.queue
  designated : pl'.designated = pl.designated
  views : pl'.pc.views = pl.pc.views
  normal : pl.queue.random = false → pl'.queue = pl.queue ∧ pl'.current = pl.current

theorem Keeps.of_eq (hqueue : pl'.queue = pl.queue) (hcurrent : pl'.current = pl.current)
    (hviews : pl'.pc.views = pl.pc.views) : Keeps pl pl' where
  songs := by rw [hqueue]; exact .refl
  designated := by rw [Playlist.designated, hqueue, hcurrent]; rfl
  views := hviews
  normal _ := ⟨hqueue, hcurrent⟩

theorem Keeps.refl (pl : Playlist σ) : Keeps pl pl :=
  .of_eq rfl rfl rfl

theorem Keeps.random_eq (h : Keeps pl pl') : pl'.queue.random = pl.queue.random := by
  rw [h.songs]
  rfl

theorem Keeps.length_eq (h : Keeps pl pl') : pl'.queue.length = pl.queue.length := by
  rw [h.songs]
  rfl

theorem Keeps.items_eq (h : Keeps pl pl') : pl'.queue.items = pl.queue.items := by
  rw [h.songs]
  rfl

theorem Keeps.currentId_eq (h : Keeps pl pl') : pl'.currentId = pl.currentId := by
  rw [currentId, currentId, h.designated, h.items_eq]

theorem Keeps.trans (h : Keeps pl pl') (h' : Keeps pl' pl'') : Keeps pl pl'' where
  songs := h.songs.trans h'.songs
  designated := h'.designated.trans h.designated
  views := h'.views.trans h.views
  normal hr := by
    have h₁ := h.normal hr
    have h₂ := h'.normal (h.random_eq.trans hr)
    exact ⟨h₂.1.trans h₁.1, h₂.2.trans h₁.2⟩

/-! ### Starting and stopping -/

theorem playOrder_eq (pl : Playlist σ) (hq : pl.queue.Inv) {o : ℕ} (ho : o < pl.queue.length) :
    pl.playOrder o = .ok ({ pl with playing := true, queued := -1, current := o }.send
      (.play (pl.queue.items (pl.queue.order o)).song)) := by
  have hn := hq.length_lt
  rw [playOrder, unsigned_natCast (by omega), hq.getOrder_eq ho]
  rfl

section Stop

theorem Inv.of_stopped (h : pl.Core) (hplay : pl.playing = false) (hqueued : pl.queued = -1) :
    pl.Inv :=
  ⟨h, fun hp => absurd (hplay.symm.trans hp) (by decide), by omega, by omega, fun _ => hqueued⟩

theorem nextOrder_cases (q : Queue σ) {o : ℕ} (ho : o < q.length) :
    q.nextOrder o = -1 ∨ ∃ n < q.length, q.nextOrder o = (n : ℕ) := by
  unfold Queue.nextOrder
  split
  · exact .inr ⟨o, ho, rfl⟩
  · split
    · exact .inr ⟨o + 1, ‹_›, rfl⟩
    · split
      · exact .inr ⟨0, by omega, rfl⟩
      · exact .inl rfl

theorem recordUpdate_frame (pl : Playlist σ) :
    pl.recordUpdate = { pl with updates := pl.recordUpdate.updates } := by
  rw [recordUpdate]
  split <;> rfl

theorem recordUpdate_updates (h : ∀ u ∈ pl.updates, u.1 = u.2)
    (hqueued : pl.queue.random = false → pl.queued = pl.queue.nextOrder (unsigned pl.current)) :
    ∀ u ∈ pl.recordUpdate.updates, u.1 = u.2 := by
  intro u hu
  rw [recordUpdate] at hu
  split at hu
  · exact h u hu
  · rename_i hnormal
    rcases List.mem_cons.mp hu with rfl | hu
    · exact hqueued (Bool.not_eq_true _ ▸ hnormal)
    · exact h u hu

variable [Qsort]

/-- What a shuffle that follows the current song does. -/
structure Reshuffled (pl pl' : Playlist σ) : Prop where
  frame : pl' = { pl with queue := pl'.queue, current := pl'.current }
  shuffle : pl.queue.shuffleOrder = .ok pl'.queue
  current : ∃ o : ℕ, pl'.current = o ∧ o < pl.queue.length ∧
    pl'.queue.order o = pl.queue.order pl.current.toNat

theorem Reshuffled.songs (h : Reshuffled pl pl') : pl.queue.SameSongs pl'.queue :=
  (pl.queue.shuffleOrder_succeeds.yields _ h.shuffle).1

theorem Reshuffled.rearranged (h : Reshuffled pl pl') :
    Rearranged 0 pl.queue.length pl.queue.order pl'.queue.order :=
  (pl.queue.shuffleOrder_succeeds.yields _ h.shuffle).2.1

theorem Core.reshuffle_succeeds (h : pl.Core) (hrandom : pl.queue.random = true)
    (h0 : 0 ≤ pl.current) : pl.reshuffle.Succeeds (Reshuffled pl) := by
  have hlt := h.current_lt
  obtain ⟨q', hshuffle, hq'⟩ := pl.queue.shuffleOrder_succeeds
  rw [reshuffle, h.unsigned_current h0, Queue.orderToPosition_eq (by omega), Except.ok_bind,
    hshuffle, Except.ok_bind]
  have hinv := h.queue.of_rearranged hrandom hq'.1 hq'.2.1
  have hlen : q'.length = pl.queue.length := by rw [hq'.1]; rfl
  have hpos : pl.queue.order pl.current.toNat < pl.queue.length := h.queue.order_lt (by omega)
  refine (hinv.positionToOrder_succeeds (hlen ▸ hpos)).bind fun o ho => ?_
  exact .ok ⟨rfl, hshuffle, o, rfl, hlen ▸ ho.1, ho.2⟩

theorem Reshuffled.core (h : Reshuffled pl pl') (hpl : pl.Core)
    (hrandom : pl.queue.random = true) : pl'.Core := by
  obtain ⟨o, ho, hlt, -⟩ := h.current
  have hlen : pl'.queue.length = pl.queue.length := by rw [h.songs]; rfl
  refine ⟨hpl.queue.of_rearranged hrandom h.songs h.rearranged, by omega, by omega, ?_⟩
  rw [h.frame]
  exact hpl.updates

theorem Reshuffled.keeps (h : Reshuffled pl pl') (hpl : pl.Core)
    (hrandom : pl.queue.random = true) (h0 : 0 ≤ pl.current) : Keeps pl pl' where
  songs := h.songs
  designated := by
    obtain ⟨o, ho, hlt, hpos⟩ := h.current
    have hlen : pl'.queue.length = pl.queue.length := by rw [h.songs]; rfl
    rw [designated_natCast ho (by omega), hpl.designated_eq h0, hpos]
  views := by rw [h.frame]
  normal hf := absurd (hrandom.symm.trans hf) (by decide)

def halted (pl : Playlist σ) : Playlist σ :=
  { pl with queued := -1, playing := false }.send .stop

omit [Qsort] in
theorem Core.halted (h : pl.Core) : pl.halted.Core :=
  ⟨h.queue, h.current_ge, h.current_lt, h.updates⟩

theorem stop_of_not_playing (hplay : pl.playing = false) : pl.stop = .ok pl := by
  rw [stop, hplay]
  rfl

theorem stop_of_random (pl : Playlist σ) (hplay : pl.playing = true)
    (hrandom : pl.queue.random = true) : pl.stop = pl.halted.reshuffle := by
  rw [stop, hplay]
  exact if_pos hrandom

theorem stop_of_normal (pl : Playlist σ) (hplay : pl.playing = true)
    (hrandom : pl.queue.random = false) : pl.stop = .ok pl.halted := by
  rw [stop, hplay]
  exact if_neg (c := pl.queue.random = true) (by simp [hrandom])

/-- **Stopping.** Playback stops, and in random mode the order is shuffled around the current
song. -/
theorem Core.stop_succeeds (h : pl.Core) (h0 : pl.playing = true → 0 ≤ pl.current)
    (hstopped : pl.playing = false → pl.queued = -1) :
    pl.stop.Succeeds fun pl' => pl'.Core ∧ Keeps pl pl' ∧ pl'.playing = false ∧
      pl'.queued = -1 := by
  cases hplay : pl.playing with
  | false =>
    rw [stop_of_not_playing hplay]
    exact .ok ⟨h, .refl pl, hplay, hstopped hplay⟩
  | true =>
    have hkeeps : Keeps pl pl.halted := .of_eq rfl rfl rfl
    cases hrandom : pl.queue.random with
    | false =>
      rw [pl.stop_of_normal hplay hrandom]
      exact .ok ⟨h.halted, hkeeps, rfl, rfl⟩
    | true =>
      rw [pl.stop_of_random hplay hrandom]
      refine (h.halted.reshuffle_succeeds hrandom (h0 hplay)).mono fun pl' hpl' => ?_
      refine ⟨hpl'.core h.halted hrandom, hkeeps.trans (hpl'.keeps h.halted hrandom (h0 hplay)),
        ?_, ?_⟩ <;> rw [hpl'.frame] <;> rfl

theorem Inv.stop_succeeds (h : pl.Inv) : pl.stop.Succeeds fun pl' => pl'.Inv ∧ Keeps pl pl' ∧
    pl'.playing = false :=
  (h.toCore.stop_succeeds h.playing h.stopped).mono fun _ hpl' =>
    ⟨.of_stopped hpl'.1 hpl'.2.2.1 hpl'.2.2.2, hpl'.2.1, hpl'.2.2.1⟩

/-! ### Updating the queued song -/

theorem Core.startCycle_succeeds (h : pl.Core) (h0 : 0 ≤ pl.current) (next : ℤ) :
    (pl.startCycle next).Succeeds fun pl' => pl'.Core ∧ Keeps pl pl' ∧
      pl' = { pl with queue := pl'.queue, current := pl'.current } ∧ 0 ≤ pl'.current ∧
      (next ≠ 0 → pl' = pl) := by
  refine .ite (fun hc => ?_) fun _ =>
    .ok ⟨h, .refl pl, rfl, h0, fun _ => rfl⟩
  refine (h.reshuffle_succeeds hc.2.1 h0).mono fun pl' hpl' => ?_
  obtain ⟨o, ho, -⟩ := hpl'.current
  exact ⟨hpl'.core h hc.2.1, hpl'.keeps h hc.2.1 h0, hpl'.frame, by omega,
    fun hne => absurd hc.1 hne⟩

variable [DecidableEq σ]

omit [Qsort] in
theorem cancelQueued_frame (pl : Playlist σ) (prev next : Option σ) :
    pl.cancelQueued prev next = { pl with
      queued := (pl.cancelQueued prev next).queued
      pc := (pl.cancelQueued prev next).pc } ∧
    (pl.cancelQueued prev next).pc.views = pl.pc.views := by
  rw [cancelQueued]
  split <;> exact ⟨rfl, rfl⟩

omit [Qsort] in
theorem enqueueNext_succeeds (hq : pl.queue.Inv) {next : ℤ}
    (hnext : next = -1 ∨ ∃ n < pl.queue.length, next = (n : ℕ)) (hge : -1 ≤ pl.queued)
    (hprev : pl.queued < 0 ↔ prev = none) :
    (pl.enqueueNext prev next).Succeeds fun pl' =>
      pl' = { pl with queued := next, pc := pl'.pc } ∧ pl'.pc.views = pl.pc.views := by
  rcases hnext with rfl | ⟨n, hn, rfl⟩
  · rw [enqueueNext, nextSongAt, if_neg (by omega), Except.ok_bind, if_neg (by omega),
      Except.succeeds_ok, cancelQueued]
    by_cases hp : prev = none
    · -- nothing was queued, and nothing is
      rw [if_neg (by simp [hp])]
      have := hprev.mpr hp
      have hqueued : pl.queued = -1 := by omega
      exact ⟨by rw [← hqueued], rfl⟩
    · rw [if_pos ⟨hp, fun heq => hp heq.symm⟩]
      exact ⟨rfl, rfl⟩
  · have hlen := hq.length_lt
    have hcast : unsigned n = n := unsigned_natCast (by omega)
    rw [enqueueNext, nextSongAt, if_pos (by omega), hcast, hq.getOrder_eq hn]
    refine .bind (P := fun _ => True) (.ok trivial) fun next _ => ?_
    obtain ⟨hframe, hviews⟩ := pl.cancelQueued_frame prev next
    rw [if_pos (Int.natCast_nonneg n)]
    refine .branch ?_ <| .ok ⟨?_, hviews⟩
    · rw [queueSongOrder, hframe, hq.getOrder_eq hn]
      exact .ok ⟨rfl, hviews⟩
    · rw [hframe]

/-- **Updating the queued song** succeeds in the middle of every edit, ends it, and keeps the
current song. Nothing is shuffled unless the first song is the next one. -/
theorem Editing.updateQueuedSong_succeeds (h : pl.Editing prev) :
    (pl.updateQueuedSong prev).Succeeds fun pl' => pl'.Inv ∧ Keeps pl pl' ∧
      pl'.playing = pl.playing ∧
      (pl.nextOrder ≠ 0 → pl'.queue = pl.queue ∧ pl'.current = pl.current) := by
  refine .ite (fun hplay => ?_) fun hplay => ?_
  · have h0 := h.playing hplay
    have hlt := h.current_lt
    have hnext : pl.nextOrder = pl.queue.nextOrder (unsigned pl.current) := if_pos h0
    have hcases := nextOrder_cases pl.queue (o := pl.current.toNat) (by omega)
    rw [← h.unsigned_current h0, ← hnext] at hcases
    rw [if_neg (by simp [Queue.isEmpty]; omega), if_neg (not_not.mpr h.prev_iff)]
    refine (h.toCore.startCycle_succeeds h0 pl.nextOrder).bind ?_
    rintro pl₁ ⟨hcore, hkeeps, hframe, h0', hsame⟩
    have hqueued : pl₁.queued = pl.queued := by rw [hframe]
    have hplay₁ : pl₁.playing = pl.playing := by rw [hframe]
    have hprev : pl₁.queued < 0 ↔ prev = none := hqueued ▸ h.prev_iff
    refine (enqueueNext_succeeds hcore.queue (hkeeps.length_eq.symm ▸ hcases)
      (hqueued ▸ h.queued_ge) hprev).bind ?_
    rintro pl₂ ⟨hframe₂, hviews₂⟩
    have hkeeps₂ : Keeps pl₁ pl₂.recordUpdate := by
      refine .of_eq ?_ ?_ ?_
      · rw [recordUpdate_frame, hframe₂]
      · rw [recordUpdate_frame, hframe₂]
      · rw [recordUpdate_frame, ← hviews₂]
    have hplay₂ : pl₂.recordUpdate.playing = pl.playing := by
      rw [recordUpdate_frame, ← hplay₁, hframe₂]
    have hqueued₂ : pl₂.recordUpdate.queued = pl.nextOrder := by
      rw [recordUpdate_frame, hframe₂]
    have hcurrent₂ : pl₂.recordUpdate.current = pl₁.current := by
      rw [recordUpdate_frame, hframe₂]
    have hqueue₂ : pl₂.recordUpdate.queue = pl₁.queue := by
      rw [recordUpdate_frame, hframe₂]
    refine .ok ⟨⟨⟨?_, ?_, ?_, ?_⟩, ?_, ?_, ?_, ?_⟩, hkeeps.trans hkeeps₂, hplay₂, fun hne => ?_⟩
    · rw [hqueue₂]
      exact hcore.queue
    · rw [hcurrent₂]
      exact hcore.current_ge
    · rw [hcurrent₂, hqueue₂]
      exact hcore.current_lt
    · -- in normal mode the order was not shuffled, so the next song still is the next one
      have hold : pl₂.updates = pl.updates := by rw [hframe₂, hframe]
      have hq : pl₂.queue = pl₁.queue := by rw [hframe₂]
      have hc : pl₂.current = pl₁.current := by rw [hframe₂]
      refine recordUpdate_updates (hold ▸ h.updates) fun hnormal => ?_
      rw [hq, hkeeps.random_eq] at hnormal
      obtain ⟨hq₁, hc₁⟩ := hkeeps.normal hnormal
      rw [hq, hc, hq₁, hc₁, ← hnext, hframe₂]
    · rw [hcurrent₂]
      exact fun _ => h0'
    · rw [hqueued₂]
      rcases hcases with heq | ⟨n, -, heq⟩ <;> omega
    · rw [hqueued₂, hqueue₂, hkeeps.length_eq]
      rcases hcases with heq | ⟨n, hn, heq⟩ <;> omega
    · rw [hplay₂]
      exact fun hf => absurd (hplay.symm.trans hf) (by decide)
    · rw [hqueue₂, hcurrent₂, hsame hne]
      exact ⟨rfl, rfl⟩
  · rw [Bool.not_eq_true] at hplay
    exact .ok ⟨.of_stopped h.toCore hplay (h.stopped hplay), .refl pl, rfl, fun _ => ⟨rfl, rfl⟩⟩

end Stop

end Playlist

end Mpd
