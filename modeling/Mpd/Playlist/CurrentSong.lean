import Mpd.Playlist.Run

/-!
# The playlist: which operations keep the current song

While it is played, the current song can be recognized by its id. Most edits and mode changes
leave it alone, although they change its position or its order number. Two do not: adding a song
in random mode when the queued song has a smaller order number than the current one, and moving a
block in normal mode onto the current song from further up. At the end, the song that is reported
as the next one is compared with the one that comes next.
-/

namespace Mpd

open Int

open Queue Function Arrangement

namespace Playlist

variable {σ : Type} {pl pl' : Playlist σ}

/-! ### Edits and mode changes that keep the current song -/

/-- **The current song stays.** Exchanging, prioritizing and shuffling songs, the playback modes,
deleting other songs, and, in random mode, moving songs all return, and leave the current song of
a playing playlist alone. -/
theorem currentId_stays [Qsort] [DecidableEq σ] [SongRef σ] (h : pl.Inv)
    (hplay : pl.playing = true) :
    (∀ song₁ song₂, (pl.swapSongs song₁ song₂).Succeeds fun r => r.1.currentId = pl.currentId) ∧
    (∀ start stop priority, (pl.setPriority start stop priority).Succeeds fun r =>
      r.1.currentId = pl.currentId) ∧
    (∀ start stop, (pl.shuffle start stop).Succeeds fun pl' => pl'.currentId = pl.currentId) ∧
    (∀ status, (pl.setRandom status).Succeeds fun pl' => pl'.currentId = pl.currentId) ∧
    (∀ status, (pl.setRepeat status).Succeeds fun pl' => pl'.currentId = pl.currentId) ∧
    (∀ status, (pl.setSingle status).Succeeds fun pl' => pl'.currentId = pl.currentId) ∧
    (∀ song, pl.designated ≠ some song →
      (pl.delete song).Succeeds fun r => r.1.currentId = pl.currentId) ∧
    (∀ start stop, (∀ p ∈ pl.designated, ¬ (start ≤ p ∧ p < stop)) →
      (pl.deleteRange start stop).Succeeds fun r => r.1.currentId = pl.currentId) ∧
    (pl.queue.random = true → ∀ start stop dst, pl.MoveInRange start stop dst →
      (pl.moveRange start stop dst).Succeeds fun r => r.1.currentId = pl.currentId) := by
  refine ⟨fun p₁ p₂ => ?_, fun start stop priority => ?_, fun start stop => ?_, fun status => ?_,
    fun status => ?_, fun status => ?_, fun song hne => ?_, fun start stop hout => ?_,
    fun hrandom start stop dst hr => ?_⟩
  · exact (h.swapSongs_succeeds p₁ p₂).mono fun r hr => hr.2
  · exact (h.setPriority_succeeds start stop priority).mono fun r hr => hr.2
  · exact (h.shuffle_succeeds start stop).mono fun pl' hpl' => hpl'.2 hplay
  · exact (h.setRandom_succeeds status).mono fun pl' hpl' => hpl'.2 hplay
  · exact (h.setRepeat_succeeds status).mono fun pl' hpl' => hpl'.2
  · exact (h.setSingle_succeeds status).mono fun pl' hpl' => hpl'.2
  · exact (h.delete_inv (mayDelete_of_ne hne)).mono fun r hr => hr.2 hne
  · refine (h.deleteRange_succeeds (mayDelete_of_outside fun p hp hD => ?_)).mono fun r hr =>
      hr.2 hplay hout
    exact hout p hp ⟨hD.1, hD.2.trans_le (Nat.min_le_left _ _)⟩
  · refine (h.moveRange_succeeds hr).mono fun r hr' => ?_
    rcases hr'.2 with heq | ⟨t, ht, hkeeps⟩
    · rw [heq]
    · rw [hkeeps.currentId_eq, incrementVersion_currentId, h.moved_currentId ht hrandom]

theorem currentId_stays_three_songs : ∃ pl : Playlist ℕ,
    Reaches Op.run Op.Safe (numbered .play fun k => k) pl ∧ pl.playing = true ∧
      pl.queue.random = true ∧ pl.designated = some 1 ∧
      (pl.swapSongs 1 2).Succeeds fun r => r.1.currentId = pl.currentId := by
  obtain ⟨pl, hpl, hplay, hrandom, hdes⟩ := exists_reaches Op.run Op.Safe
    (numbered .play fun k => k)
    [.appendSong 10, .appendSong 11, .appendSong 12, .setRandom true, .play 1, .sync]
    (P := fun pl => pl.playing = true ∧ pl.queue.random = true ∧ pl.designated = some 1)
    (by decide +kernel)
  exact ⟨pl, hpl, hplay, hrandom, hdes,
    (currentId_stays ((inv_numbered _ _).reaches hpl) hplay).1 1 2⟩

/-! ### Adding a song -/

def withDraws (pl : Playlist σ) (r : Draws) : Playlist σ :=
  { pl with queue := { pl.queue with rand := r } }

theorem Inv.withDraws (h : pl.Inv) (r : Draws) : (pl.withDraws r).Inv :=
  h.withModes _ _ _ r

section

variable (pl : Playlist σ) (song : σ) (id : ℕ)

theorem withSong_current : (pl.withSong song id).current = pl.current := by
  rw [withSong_frame]

theorem withSong_length : (pl.withSong song id).queue.length = pl.queue.length + 1 := by
  rw [pl.withSong_sameSongs song id]
  rfl

theorem withSong_items :
    (pl.withSong song id).queue.items = (pl.queue.appended song 0 id).items := by
  rw [pl.withSong_sameSongs song id]
  rfl

theorem withSong_order_of_random
    (hrandom : pl.queue.random = true) (hstart : pl.remainingStart ≤ pl.queue.length) :
    (pl.withSong song id).queue.order = swapAt (update pl.queue.order pl.queue.length
      pl.queue.length) pl.queue.length (pl.queue.rand.pick pl.remainingStart
        (pl.queue.length + 1)) := by
  have hlt : pl.remainingStart < pl.queue.length + 1 := by omega
  unfold withSong shuffleAppended
  rw [if_pos (show (pl.queue.appended song 0 id).random = true from hrandom)]
  split
  · rfl
  · exact absurd hlt ‹_›

end

theorem Inv.remainingStart_eq (h : pl.Inv) (hplay : pl.playing = true) :
    (pl.remainingStart : ℤ) = if 0 ≤ pl.queued then pl.queued + 1 else pl.current + 1 := by
  have h₁ := h.current_lt
  have h₂ := h.queued_lt
  have h₃ := h.queue.length_lt
  have h₄ := h.playing hplay
  rw [remainingStart]
  split <;> rw [unsigned_eq (by omega) (by omega)] <;> omega

theorem Inv.withSong_currentId (h : pl.Inv) (hplay : pl.playing = true) (song : σ) (id : ℕ)
    (hstart : pl.queue.random = true → pl.current < pl.remainingStart) :
    (pl.withSong song id).currentId = pl.currentId := by
  have hlt := h.current_lt
  have hrem := h.remainingStart_eq hplay
  refine currentId_congr hlt (fun hneg => (pl.withSong_current song id).trans_lt hneg)
    fun c hc hlt' => ⟨c, (pl.withSong_current song id).trans hc, ?_, ?_⟩
  · rw [withSong_length]
    omega
  · have hold : (update pl.queue.order pl.queue.length pl.queue.length) c =
        pl.queue.order c := update_of_ne (by omega) _ _
    have horder : (pl.withSong song id).queue.order c = pl.queue.order c := by
      cases hrandom : pl.queue.random with
      | false =>
        have heq : pl.withSong song id = { pl with queue := pl.queue.appended song 0 id } :=
          if_neg (show ¬ pl.queue.random = true by simp [hrandom])
        rw [heq]
        exact hold
      | true =>
        have hle : pl.remainingStart ≤ pl.queue.length := by
          have := h.queued_lt
          split at hrem <;> omega
        have hpick := pl.queue.rand.le_pick pl.remainingStart (pl.queue.length + 1)
        have := hstart hrandom
        rw [pl.withSong_order_of_random song id hrandom hle, swapAt_eq_comp, comp_apply,
          Equiv.swap_apply_of_ne_of_ne (by omega) (by omega), hold]
    have hpos := h.queue.order_lt hlt'
    rw [horder, withSong_items]
    exact congrArg QueueItem.id (update_of_ne hpos.ne _ _)

theorem Inv.appendSong_currentId_ne [Qsort] [DecidableEq σ] (h : pl.Inv) (song : σ) {c : ℕ}
    (hc : pl.current = c) (hfull : pl.queue.isFull = false) (hrandom : pl.queue.random = true)
    (hle : pl.remainingStart ≤ pl.queue.length)
    (hpick : pl.queue.rand.pick pl.remainingStart (pl.queue.length + 1) = c) :
    (pl.appendSong song).Succeeds fun r => r.1.currentId ≠ pl.currentId := by
  have hlt := h.current_lt
  refine (h.appendSong_succeeds song).mono ?_
  rintro r ⟨hinv, ⟨hfull', -⟩ | ⟨-, id, hkeeps⟩⟩
  · exact absurd hfull' (by simp [hfull])
  intro heq
  have hlen : r.1.queue.length = pl.queue.length + 1 := by
    rw [hkeeps.length_eq]
    exact (incrementVersion_length _).trans (pl.withSong_length song id)
  have horder : (pl.withSong song id).queue.order c = pl.queue.length := by
    rw [pl.withSong_order_of_random song id hrandom hle, hpick, swapAt_eq_comp,
      comp_apply, Equiv.swap_apply_right, update_self]
  have hdes : r.1.designated = some pl.queue.length := by
    rw [hkeeps.designated, incrementVersion_designated,
      designated_natCast ((pl.withSong_current song id).trans hc)
        (by rw [withSong_length]; omega), horder]
  -- the ids of the new playlist are distinct
  have hids : ∀ p < pl.queue.length, (r.1.queue.items p).id = (pl.queue.items p).id := by
    intro p hp
    rw [hkeeps.items_eq]
    refine ((pl.withSong song id).queue.incrementVersion_id p).trans ?_
    rw [withSong_items]
    exact congrArg QueueItem.id (update_of_ne hp.ne _ _)
  have hpos := h.queue.order_lt (show c < pl.queue.length by omega)
  rw [currentId_natCast hc (by omega), currentId, hdes, Option.map_some, Option.some.injEq,
    ← hids _ hpos] at heq
  have := hinv.queue.indexed.injOn (show pl.queue.length < r.1.queue.length by omega)
    (show _ < r.1.queue.length by omega) heq
  omega

/-- **Adding a song.** The current song of a playing playlist stays for all outcomes of the random
generator exactly if the queue is full, in normal mode, if no song is queued, or if the queued song
does not come before the current one in the order. -/
theorem appendSong_keeps_current_iff [Qsort] [DecidableEq σ] (h : pl.Inv)
    (hplay : pl.playing = true) (song : σ) :
    (∀ r : Draws, ((pl.withDraws r).appendSong song).Succeeds fun res =>
      res.1.currentId = pl.currentId) ↔
    pl.queue.isFull = true ∨ pl.queue.random = false ∨ pl.queued < 0 ∨ pl.current ≤ pl.queued := by
  have h0 := h.playing hplay
  have hlt := h.current_lt
  have hrem := h.remainingStart_eq hplay
  constructor
  · intro hall
    by_contra hcon
    push Not at hcon
    obtain ⟨hfull, hrandom, hqueued, hbefore⟩ := hcon
    rw [ne_eq, Bool.not_eq_true] at hfull
    rw [ne_eq, Bool.not_eq_false] at hrandom
    have hcur : pl.current = (pl.current.toNat : ℕ) := (toNat_of_nonneg h0).symm
    -- the generator that picks the order number of the current song
    set r : Draws := pl.queue.rand.cons (pl.current.toNat - pl.remainingStart)
    have hpick : r.pick pl.remainingStart (pl.queue.length + 1) = pl.current.toNat :=
      Draws.pick_cons _ (by omega) (by omega)
    obtain ⟨res, hres, hne⟩ := (h.withDraws r).appendSong_currentId_ne song hcur hfull hrandom
      (show pl.remainingStart ≤ pl.queue.length by omega) hpick
    obtain ⟨res', hres', heq⟩ := hall r
    rw [hres] at hres'
    cases hres'
    exact hne heq
  · intro hcond r
    refine ((h.withDraws r).appendSong_succeeds song).mono ?_
    rintro res ⟨-, ⟨-, heq⟩ | ⟨hfull, id, hkeeps⟩⟩
    · rw [heq]
      rfl
    · rw [hkeeps.currentId_eq, incrementVersion_currentId]
      refine (h.withDraws r).withSong_currentId hplay song id fun hrandom => ?_
      rcases hcond with hf | hf | hcond
      · exact absurd (hf.symm.trans hfull) (by decide)
      · exact absurd (hf.symm.trans hrandom) (by decide)
      · show pl.current < (pl.remainingStart : ℤ)
        rw [hrem]
        split <;> omega

theorem appendSong_keeps_current_queued : ∃ pl, Reached pl ∧ pl.playing = true ∧
      pl.queue.random = true ∧ pl.current = 0 ∧ pl.queued = 1 ∧
      ∀ r : Draws, ((pl.withDraws r).appendSong 12).Succeeds fun res =>
        res.1.currentId = pl.currentId := by
  obtain ⟨pl, hpl, hplay, hrandom, hcur, hqueued⟩ := exists_reached
    [.appendSong 10, .appendSong 11, .setRandom true, .play (-1), .sync]
    (P := fun pl => pl.playing = true ∧ pl.queue.random = true ∧ pl.current = 0 ∧ pl.queued = 1)
    (by decide)
  refine ⟨pl, hpl, hplay, hrandom, hcur, hqueued, ?_⟩
  refine (appendSong_keeps_current_iff hpl.inv hplay 12).mpr ?_
  exact .inr (.inr (.inr (by rw [hcur, hqueued]; decide)))

theorem appendSong_loses_current : ∃ pl, Reached pl ∧ pl.playing = true ∧ pl.current = 1 ∧
      pl.queued = 0 ∧ (pl.appendSong 12).Succeeds fun res => res.1.currentId ≠ pl.currentId :=
  exists_reached [.appendSong 10, .appendSong 11, .setRandom true,
    .setRepeat true, .play (-1), .next, .sync] (by decide)

/-! ### Moving songs in normal mode -/

theorem moveCurrent_eq_iff {start stop dst c : ℕ} (h : start < stop) :
    moveCurrent c start stop dst = Queue.rangeTarget start stop dst c ↔
      ¬ (stop ≤ c ∧ dst < c ∧ c < dst + (stop - start)) := by
  unfold moveCurrent Queue.rangeTarget
  split_ifs <;> omega

theorem Inv.moved_currentId_iff (h : pl.Inv) {start stop dst c : ℕ} (hlt : start < stop)
    (hr : Queue.InRange start stop dst pl.queue.length) (hrandom : pl.queue.random = false)
    (hc : pl.current = c) : (pl.moved start stop dst).currentId = pl.currentId ↔
      ¬ (stop ≤ c ∧ dst < c ∧ c < dst + (stop - start)) := by
  have hn : pl.queue.length < 2147483648 := by have := h.queue.length_lt; omega
  have hlt' := h.current_lt
  have hc' : c < pl.queue.length := by omega
  have hlen := moveRangeBody_length hr hn
  obtain ⟨hcore, h0⟩ := h.moved_core hr
  obtain ⟨d, hd⟩ := eq_ofNat_of_zero_le (h0 (by omega))
  have hcur : (pl.moved start stop dst).current = moveCurrent c start stop dst := by
    rw [← hc]
    exact if_neg (by simp [hrandom])
  have hd' : d < pl.queue.length := by
    have := hcore.current_lt
    rw [hd] at this
    exact (ofNat_lt.mp this).trans_eq hlen
  have hrandom' : (pl.queue.moveRangeBody start stop dst).random = false :=
    (random_eq (moveRangeBody_settings hr hn)).trans hrandom
  have hord : (pl.moved start stop dst).queue.order d = d :=
    hcore.queue.order_eq hrandom' d (hd'.trans_eq hlen.symm)
  rw [currentId_natCast hc hc', currentId_natCast hd (hd'.trans_eq hlen.symm), hord,
    h.queue.order_eq hrandom c hc', Option.some.injEq, ← moveCurrent_eq_iff hlt, ← hcur, hd,
    natCast_inj]
  show ((pl.queue.moveRangeBody start stop dst).items d).id = _ ↔ _
  rw [moveRangeBody_id pl.queue hr hn]
  constructor
  · intro hid
    have := h.queue.indexed.injOn (rangeSource_lt hr hd') hc' hid
    rw [← this, rangeTarget_rangeSource hr.start_le]
  · rintro rfl
    rw [rangeSource_rangeTarget hr.start_le]

/-- **Moving songs in normal mode.** A block moved within the queue leaves the current song alone
exactly if the current song does not lie behind the block and is not overtaken by a part of it:
`current` is not adjusted between the destination and the end of the block's new place. -/
theorem moveRange_keeps_current_iff [Qsort] [DecidableEq σ] (h : pl.Inv)
    (hrandom : pl.queue.random = false) (h0 : 0 ≤ pl.current) {start stop : UInt32} {dst : Int32}
    (h₁ : start.toNat < stop.toNat) (h₂ : stop.toNat ≤ pl.queue.length) (h₃ : 0 ≤ dst.toInt)
    (h₄ : dst.toInt + (stop.toNat - start.toNat) ≤ pl.queue.length) :
    ((pl.moveRange start stop dst).Succeeds fun r =>
      r.2 = .success ∧ r.1.currentId = pl.currentId) ↔
    ¬ (stop.toNat ≤ pl.current ∧ dst.toInt < pl.current ∧
      pl.current < dst.toInt + (stop.toNat - start.toNat)) := by
  have hn := h.queue.length_lt
  obtain ⟨t, ht⟩ := eq_ofNat_of_zero_le h₃
  obtain ⟨c, hc⟩ := eq_ofNat_of_zero_le h0
  have hbad : pl.moveBadRange start.toNat stop.toNat dst.toInt = false := by
    have h₅ : unsigned ((stop.toNat : ℤ) - 1) = stop.toNat - 1 := by
      rw [unsigned_eq (by omega) (by omega)]
      omega
    have h₆ : unsigned (dst.toInt + stop.toNat - start.toNat - 1) < pl.queue.length := by
      rw [unsigned_eq (by omega) (by omega)]
      omega
    simp only [moveBadRange, Queue.validPosition, h₅, Bool.or_eq_false_iff, Bool.not_eq_false',
      Bool.and_eq_false_iff, decide_eq_true_eq, decide_eq_false_iff_not]
    omega
  rcases h.moveRange_cases start stop dst with ⟨hb, -⟩ | ⟨-, hnothing, heq⟩ |
    ⟨-, hmove, prev, hprev, heq⟩
  · exact absurd (hbad.symm.trans hb) (by decide)
  · have hst : (start.toNat : ℤ) = dst.toInt := hnothing.resolve_right (by omega)
    rw [heq, Except.succeeds_ok]
    exact iff_of_true ⟨rfl, rfl⟩ (by omega)
  · have hr : Queue.InRange start.toNat stop.toNat t pl.queue.length := ⟨h₁.le, h₂, by omega⟩
    have htarget : pl.moveTarget start.toNat dst.toInt pl.currentSong = t :=
      (if_neg (by omega)).trans ht
    obtain ⟨r, hr', -, hkeeps, hstatus⟩ := h.performMove_succeeds hprev hr
    rw [heq, htarget, hr', Except.succeeds_ok, hkeeps.currentId_eq, incrementVersion_currentId,
      h.moved_currentId_iff h₁ hr hrandom hc, and_iff_right hstatus]
    omega

theorem moveRange_keeps_current_last : ∃ pl, Reached pl ∧ pl.current = 1 ∧
      (pl.moveRange 3 4 0).Succeeds fun r =>
        r.2 = .success ∧ r.1.currentId = pl.currentId := by
  obtain ⟨pl, hpl, hlen, hcur, hrandom⟩ := exists_reached
    [.appendSong 10, .appendSong 11, .appendSong 12, .appendSong 13, .play 1]
    (P := fun pl => pl.queue.length = 4 ∧ pl.current = 1 ∧ pl.queue.random = false)
    (by decide)
  refine ⟨pl, hpl, hcur, (moveRange_keeps_current_iff hpl.inv hrandom ?_
    (by decide) ?_ (by decide) ?_).mpr ?_⟩
  · rw [hcur]
    decide
  · rw [hlen]
    decide
  · rw [hlen]
    decide
  · rw [hcur]
    decide

theorem moveRange_loses_current : ∃ pl, Reached pl ∧ pl.queue.random = false ∧
      pl.queue.length = 4 ∧ pl.current = 3 ∧
      (pl.moveRange 0 2 2).Succeeds fun r => r.2 = .success ∧ r.1.currentId ≠ pl.currentId :=
  exists_reached [.appendSong 10, .appendSong 11, .appendSong 12, .appendSong 13, .play 3]
    (by decide)

/-! ### The next song -/

def reportedOrder (pl : Playlist σ) : ℤ :=
  if pl.queue.single && pl.queue.repeat_ then pl.current
  else if pl.current + 1 < pl.queue.length then pl.current + 1
  else if pl.queue.repeat_ then 0
  else -1

theorem reportedOrder_bounds (h0 : 0 ≤ pl.current) (hlt : pl.current < pl.queue.length) :
    -1 ≤ pl.reportedOrder ∧ pl.reportedOrder < pl.queue.length := by
  unfold reportedOrder
  split_ifs <;> omega

theorem getNextSong_eq (hn : pl.queue.length < 4294967296) (h0 : 0 ≤ pl.current)
    (hlt : pl.current < pl.queue.length) :
    pl.getNextSong = .ok (if 0 ≤ pl.reportedOrder then
      (pl.queue.order pl.reportedOrder.toNat : ℤ) else -1) := by
  have hpos : ∀ o : ℤ, 0 ≤ o → o < pl.queue.length →
      (fun position : ℕ => (position : ℤ)) <$> pl.queue.orderToPosition (unsigned o) =
        .ok (if 0 ≤ o then (pl.queue.order o.toNat : ℤ) else -1) := by
    intro o h₁ h₂
    rw [unsigned_eq h₁ (by omega), orderToPosition_eq (by omega), if_pos h₁]
    rfl
  rw [getNextSong, if_pos h0]
  by_cases hsingle : (pl.queue.single && pl.queue.repeat_) = true
  · have hrep : pl.reportedOrder = pl.current := if_pos hsingle
    rw [if_pos hsingle, hrep]
    exact hpos _ h0 hlt
  by_cases hmore : pl.current + 1 < pl.queue.length
  · have hrep : pl.reportedOrder = pl.current + 1 := (if_neg hsingle).trans (if_pos hmore)
    rw [if_neg hsingle, if_pos hmore, hrep]
    exact hpos _ (by omega) hmore
  have hrest : pl.reportedOrder = if pl.queue.repeat_ then 0 else -1 :=
    (if_neg hsingle).trans (if_neg hmore)
  rw [if_neg hsingle, if_neg hmore, hrest]
  split
  · exact hpos 0 le_rfl (by omega)
  · rfl

/-- **The song reported as the next one is the one that follows.** -/
def ReportsNext (pl : Playlist σ) : Prop :=
  pl.getNextSong.Succeeds fun song =>
    (∀ o : ℕ, pl.queue.nextOrder pl.current.toNat = o →
      o < pl.queue.length ∧ song = pl.queue.order o) ∧
    (song = -1 ↔ pl.queue.nextOrder pl.current.toNat = -1)

theorem reportsNext_iff_order (hq : pl.queue.Inv) (h0 : 0 ≤ pl.current)
    (hlt : pl.current < pl.queue.length) :
    pl.ReportsNext ↔ pl.reportedOrder = pl.queue.nextOrder pl.current.toNat := by
  have hn := hq.length_lt
  obtain ⟨h₁, h₂⟩ := reportedOrder_bounds h0 hlt
  rw [ReportsNext, getNextSong_eq (by omega) h0 hlt, Except.succeeds_ok]
  rcases nextOrder_cases pl.queue (o := pl.current.toNat) (by omega) with hnext | ⟨n, hlt', hnext⟩
  · rw [hnext]
    constructor
    · rintro ⟨-, hiff⟩
      have hsong := hiff.mpr rfl
      split at hsong <;> omega
    · intro heq
      rw [heq]
      exact ⟨fun o ho => by omega, iff_of_true rfl rfl⟩
  · rw [hnext]
    constructor
    · rintro ⟨hsong, -⟩
      obtain ⟨-, hsong⟩ := hsong n rfl
      split at hsong
      · have := hq.order_inj (by omega) hlt' (ofNat_inj.mp hsong)
        omega
      · omega
    · intro heq
      rw [heq, if_pos (natCast_nonneg n), toNat_natCast]
      refine ⟨fun o ho => ?_, by omega⟩
      obtain rfl : n = o := ofNat_inj.mp ho
      exact ⟨hlt', rfl⟩

/-- **The reported next song** is the one that comes next, unless consume mode is on together with
repeat: then it is wrong in single mode, and for the only song of the queue. -/
theorem reportsNext_iff (hq : pl.queue.Inv) (h0 : 0 ≤ pl.current)
    (hlt : pl.current < pl.queue.length) :
    pl.ReportsNext ↔ ¬ (pl.queue.repeat_ = true ∧ pl.queue.consume = true ∧
      (pl.queue.single = true ∨ pl.queue.length = 1)) := by
  rw [reportsNext_iff_order hq h0 hlt, reportedOrder, Queue.nextOrder]
  obtain ⟨c, hc⟩ := eq_ofNat_of_zero_le h0
  rw [hc] at hlt ⊢
  -- with the modes fixed, both sides compare `c + 1` with the length
  cases pl.queue.repeat_ <;> cases pl.queue.consume <;> cases pl.queue.single <;> grind

theorem reportsNext_two_songs : ∃ pl, Reached pl ∧ pl.current = 1 ∧
      pl.queue.repeat_ = true ∧ pl.queue.consume = true ∧ pl.ReportsNext := by
  obtain ⟨pl, hpl, hcur, hlen, hrepeat, hconsume, hsingle⟩ := exists_reached
    [.appendSong 10, .appendSong 11, .setRepeat true, .setConsume true, .play 1]
    (P := fun pl => pl.current = 1 ∧ pl.queue.length = 2 ∧ pl.queue.repeat_ = true ∧
      pl.queue.consume = true ∧ pl.queue.single = false) (by decide)
  refine ⟨pl, hpl, hcur, hrepeat, hconsume, (reportsNext_iff hpl.inv.queue ?_ ?_).mpr ?_⟩
  · rw [hcur]
    decide
  · rw [hcur, hlen]
    decide
  · rw [hsingle, hlen]
    simp

theorem not_reportsNext_single : ∃ pl, Reached pl ∧ pl.current = 0 ∧
      pl.getNextSong = .ok 0 ∧ pl.queue.nextOrder 0 = 1 ∧ ¬ pl.ReportsNext := by
  obtain ⟨pl, hpl, hcur, hlen, hsong, hnext, hrep⟩ := exists_reached
    [.appendSong 10, .appendSong 11, .setRepeat true, .setSingle true, .setConsume true, .play 0]
    (P := fun pl => pl.current = 0 ∧ pl.queue.length = 2 ∧ pl.getNextSong = .ok 0 ∧
      pl.queue.nextOrder 0 = 1 ∧ pl.reportedOrder = 0) (by decide)
  refine ⟨pl, hpl, hcur, hsong, hnext, fun h => ?_⟩
  have horder := (reportsNext_iff_order hpl.inv.queue
    (by rw [hcur]) (by rw [hcur, hlen]; decide)).mp h
  rw [hcur, hrep] at horder
  exact absurd (horder.trans hnext) (by decide)

end Playlist

end Mpd
