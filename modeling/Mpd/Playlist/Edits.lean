import Mpd.Playlist.Modes

/-!
# The playlist: edits keep it consistent

Adding, exchanging, moving and shuffling songs, and changing priorities. Every edit ends with
`finishEdit`, which needs only that the playlist is in the state `Editing` — the same for all of
them. Where an edit follows the current song, the song keeps its id.
-/

namespace Mpd

open Equiv

open Queue Except Arrangement

namespace Playlist

variable {σ : Type} {pl pl' : Playlist σ} {prev : Option σ}

/-! ### The end of an edit -/

theorem incrementVersion_designated (pl : Playlist σ) :
    pl.incrementVersion.designated = pl.designated := by
  simp only [designated, incrementVersion, incrementVersion_length, incrementVersion_order]

theorem incrementVersion_currentId (pl : Playlist σ) :
    pl.incrementVersion.currentId = pl.currentId := by
  rw [currentId, currentId, incrementVersion_designated]
  exact congrFun (congrArg Option.map (funext pl.queue.incrementVersion_id)) _

theorem Core.incrementVersion (h : pl.Core) : pl.incrementVersion.Core where
  queue := h.queue.incrementVersion
  current_ge := h.current_ge
  current_lt := by
    simp only [Playlist.incrementVersion, incrementVersion_length]
    exact h.current_lt
  updates := h.updates

theorem Editing.incrementVersion (h : pl.Editing prev) : pl.incrementVersion.Editing prev :=
  ⟨h.toCore.incrementVersion, h.playing, h.queued_ge, h.stopped, h.prev_iff⟩

/-- What the end of an edit does to the edited playlist. -/
structure Finished (pl pl' : Playlist σ) : Prop where
  inv : pl'.Inv
  keeps : Keeps pl.incrementVersion pl'
  playing : pl'.playing = pl.playing
  unshuffled : pl.incrementVersion.nextOrder ≠ 0 →
    pl'.queue = pl.queue.incrementVersion ∧ pl'.current = pl.current

theorem Finished.currentId_eq (h : Finished pl pl') : pl'.currentId = pl.currentId := by
  rw [h.keeps.currentId_eq, incrementVersion_currentId]

/-- **The end of an edit.** The version is incremented and the queued song updated; the current
song stays. -/
theorem Editing.finishEdit_succeeds [Qsort] [DecidableEq σ] (h : pl.Editing prev) :
    (pl.finishEdit prev).Succeeds fun r => Finished pl r.1 ∧ r.2 = .success := by
  refine h.incrementVersion.updateQueuedSong_succeeds.bind fun pl' hpl' => ?_
  exact .ok ⟨⟨hpl'.1, hpl'.2.1, hpl'.2.2.1, hpl'.2.2.2⟩, rfl⟩

theorem Editing.of_core (h : pl.Editing prev) (hcore : pl'.Core) (hplay : pl'.playing = pl.playing)
    (hqueued : pl'.queued = pl.queued) (h0 : pl.playing = true → 0 ≤ pl'.current) :
    pl'.Editing prev where
  toCore := hcore
  playing hp := h0 (hplay ▸ hp)
  queued_ge := hqueued ▸ h.queued_ge
  stopped hp := hqueued ▸ h.stopped (hplay ▸ hp)
  prev_iff := hqueued ▸ h.prev_iff

/-! ### Adding a song -/

def withSong (pl : Playlist σ) (song : σ) (id : ℕ) : Playlist σ :=
  let pl := { pl with queue := pl.queue.appended song 0 id }
  if pl.queue.random then pl.shuffleAppended else pl

theorem shuffleAppended_frame (pl : Playlist σ) :
    pl.shuffleAppended = { pl with queue := pl.shuffleAppended.queue } := by
  unfold shuffleAppended
  split <;> rfl

theorem shuffleAppended_sameSongs (pl : Playlist σ) :
    pl.queue.SameSongs pl.shuffleAppended.queue := by
  unfold shuffleAppended
  split
  · exact sameSongs_withOrder pl.queue (_, pl.queue.rand.rest)
  · exact .refl

theorem shuffleAppended_inv (hq : pl.queue.Inv) (hrandom : pl.queue.random = true) :
    pl.shuffleAppended.queue.Inv := by
  unfold shuffleAppended
  split
  · exact hq.shuffleOrderLast hrandom ‹_› le_rfl
  · exact hq

theorem withSong_frame (pl : Playlist σ) (song : σ) (id : ℕ) :
    pl.withSong song id = { pl with queue := (pl.withSong song id).queue } := by
  unfold withSong
  dsimp only
  split
  · rw [shuffleAppended_frame]
  · rfl

theorem withSong_sameSongs (pl : Playlist σ) (song : σ) (id : ℕ) :
    (pl.queue.appended song 0 id).SameSongs (pl.withSong song id).queue := by
  unfold withSong
  dsimp only
  split
  · exact shuffleAppended_sameSongs _
  · exact .refl

/-- **Adding a song** to a queue that is not full. -/
theorem Inv.appendSong_succeeds [Qsort] [DecidableEq σ] (h : pl.Inv) (song : σ) :
    (pl.appendSong song).Succeeds fun r => r.1.Inv ∧
      (pl.queue.isFull = true ∧ r.1 = pl ∨ pl.queue.isFull = false ∧
        ∃ id, Keeps (pl.withSong song id).incrementVersion r.1) := by
  refine .ite (fun hfull => .ok ⟨h, .inl ⟨hfull, rfl⟩⟩) fun hfull => ?_
  rw [Bool.not_eq_true] at hfull
  have hlt : pl.queue.length < pl.queue.maxLength := not_le.mp (of_decide_eq_false hfull)
  refine h.getQueuedSong_succeeds.bind fun prev hprev => ?_
  refine (h.queue.append_succeeds hlt song 0).bind ?_
  rintro ⟨q, id⟩ ⟨heq, hinv⟩
  obtain rfl : q = pl.queue.appended song 0 id := heq
  have hqueue : (pl.withSong song id).queue.Inv := by
    unfold withSong
    dsimp only
    split
    · exact shuffleAppended_inv hinv ‹_›
    · exact hinv
  have hlen : (pl.withSong song id).queue.length = pl.queue.length + 1 := by
    rw [pl.withSong_sameSongs song id]
    rfl
  have hframe := pl.withSong_frame song id
  have hedit : (pl.withSong song id).Editing prev := by
    refine hprev.of_core ⟨hqueue, ?_, ?_, ?_⟩ ?_ ?_ ?_
    · rw [hframe]
      exact h.current_ge
    · rw [hlen, hframe]
      have := h.current_lt
      show pl.current < _
      omega
    · rw [hframe]
      exact h.updates
    · rw [hframe]
    · rw [hframe]
    · rw [hframe]
      exact h.playing
  exact hedit.finishEdit_succeeds.mono fun r hr => ⟨hr.1.inv, .inr ⟨hfull, id, hr.1.keeps⟩⟩

/-! ### Exchanging two songs -/

theorem swapOrder_order {q : Queue σ} (h : q.Inv) {o₁ o₂ c : ℕ} (h₁ : o₁ < q.length)
    (h₂ : o₂ < q.length) (hc : c < q.length) :
    (q.swapOrder o₁ o₂).order c = Equiv.swap (q.order o₁) (q.order o₂) (q.order c) := by
  have hinj : ∀ o < q.length, (q.order c = q.order o ↔ c = o) := fun o ho =>
    ⟨h.order_inj hc ho, congrArg _⟩
  show swapAt q.order o₁ o₂ c = _
  rw [swapAt_eq_comp, Function.comp_apply, swap_apply_def, swap_apply_def]
  simp only [hinj o₁ h₁, hinj o₂ h₂]
  split_ifs <;> rfl

section

variable (h : pl.Inv) {p₁ p₂ : ℕ} (h₁ : p₁ < pl.queue.length) (h₂ : p₂ < pl.queue.length)
include h h₁ h₂

private theorem Inv.swapped_core (hrandom : pl.queue.random = false) (c' : ℤ)
    (hneg : pl.current < 0 → c' = pl.current)
    (hpos : ∀ c : ℕ, pl.current = c → c' = (Equiv.swap p₁ p₂ c : ℕ)) :
    Core { pl with queue := pl.queue.swap p₁ p₂, current := c' } ∧
      (0 ≤ pl.current → 0 ≤ c') ∧
      currentId { pl with queue := pl.queue.swap p₁ p₂, current := c' } = pl.currentId := by
  have hge := h.current_ge
  have hlt := h.current_lt
  have hord := h.queue.order_eq hrandom
  have hswap : ∀ c : ℕ, pl.current = c → Equiv.swap p₁ p₂ c < pl.queue.length := by
    intro c hc
    rw [swap_apply_def]
    split_ifs <;> omega
  have hcases : (pl.current < 0 ∧ c' = pl.current) ∨
      ∃ c : ℕ, pl.current = c ∧ c' = (Equiv.swap p₁ p₂ c : ℕ) := by
    rcases lt_or_ge pl.current 0 with hn | hn
    · exact .inl ⟨hn, hneg hn⟩
    · obtain ⟨c, hc⟩ := Int.eq_ofNat_of_zero_le hn
      exact .inr ⟨c, hc, hpos c hc⟩
  refine ⟨⟨h.queue.swap h₁ h₂, ?_, ?_, h.updates⟩, ?_, currentId_congr hlt ?_ ?_⟩
  · show -1 ≤ c'
    rcases hcases with hc | ⟨c, hc, hc'⟩ <;> omega
  · show c' < pl.queue.length
    rcases hcases with hc | ⟨c, hc, hc'⟩
    · omega
    · have := hswap c hc
      omega
  · rcases hcases with hc | ⟨c, hc, hc'⟩ <;> omega
  · exact fun hn => (hneg hn).trans_lt hn
  · intro c hc hlt'
    refine ⟨Equiv.swap p₁ p₂ c, hpos c hc, hswap c hc, ?_⟩
    show ((pl.queue.swap p₁ p₂).items (pl.queue.order (Equiv.swap p₁ p₂ c))).id = _
    rw [hord _ (hswap c hc), hord _ hlt', swap_id, swap_apply_self]

theorem Inv.swapCurrent_succeeds :
    (swapCurrent { pl with queue := pl.queue.swap p₁ p₂ } p₁ p₂).Succeeds fun pl' => pl'.Core ∧
      pl'.playing = pl.playing ∧ pl'.queued = pl.queued ∧
      (0 ≤ pl.current → 0 ≤ pl'.current) ∧ pl'.currentId = pl.currentId := by
  have hinv := h.queue.swap h₁ h₂
  refine .ite (fun hrandom => ?_) fun hrandom => ?_
  · refine (hinv.positionToOrder_succeeds h₁).bind fun o₁ ho₁ => ?_
    refine (hinv.positionToOrder_succeeds h₂).bind fun o₂ ho₂ => ?_
    refine .ok ⟨⟨hinv.swapOrder hrandom ho₁.1 ho₂.1, h.current_ge,
      h.current_lt, h.updates⟩, rfl, rfl, id, currentId_congr h.current_lt id fun c hc hlt => ?_⟩
    refine ⟨c, hc, hlt, ?_⟩
    show ((pl.queue.swap p₁ p₂).items (((pl.queue.swap p₁ p₂).swapOrder o₁ o₂).order c)).id = _
    rw [swapOrder_order hinv ho₁.1 ho₂.1 hlt, ho₁.2, ho₂.2, swap_id, swap_apply_self]
    rfl
  · rw [Bool.not_eq_true] at hrandom
    -- in normal mode `current` is a position, and follows the exchange as such
    refine .ite (fun hc => .ok ?_) fun hc₁ => ?_
    · have hc : pl.current = p₁ := hc
      obtain ⟨hcore, h0, hid⟩ := h.swapped_core h₁ h₂ hrandom p₂ (fun _ => by omega)
        fun c hc' => by rw [show c = p₁ by omega, swap_apply_left]
      exact ⟨hcore, rfl, rfl, h0, hid⟩
    · have hc₁ : ¬ pl.current = p₁ := hc₁
      refine .ite (fun hc => .ok ?_) fun hc₂ => ?_
      · have hc : pl.current = p₂ := hc
        obtain ⟨hcore, h0, hid⟩ := h.swapped_core h₁ h₂ hrandom p₁ (fun _ => by omega)
          fun c hc' => by rw [show c = p₂ by omega, swap_apply_right]
        exact ⟨hcore, rfl, rfl, h0, hid⟩
      · have hc₂ : ¬ pl.current = p₂ := hc₂
        obtain ⟨hcore, h0, hid⟩ := h.swapped_core h₁ h₂ hrandom pl.current (fun _ => rfl)
          fun c hc' => by rw [swap_apply_of_ne_of_ne (by omega) (by omega), hc']
        exact .ok ⟨hcore, rfl, rfl, h0, hid⟩

end

theorem Inv.swapSongs_succeeds [Qsort] [DecidableEq σ] (h : pl.Inv) (song₁ song₂ : ℕ) :
    (pl.swapSongs song₁ song₂).Succeeds fun r => r.1.Inv ∧ r.1.currentId = pl.currentId := by
  refine .ite (fun hvalid => ?_) fun _ => .ok ⟨h, rfl⟩
  rw [Bool.and_eq_true] at hvalid
  refine h.getQueuedSong_succeeds.bind fun prev hprev => ?_
  refine (h.swapCurrent_succeeds (of_decide_eq_true hvalid.1) (of_decide_eq_true hvalid.2)).bind ?_
  rintro pl₁ ⟨hcore, hplay, hqueued, h0, hid⟩
  have hedit := hprev.of_core hcore hplay hqueued fun hp => h0 (h.playing hp)
  exact hedit.finishEdit_succeeds.mono fun r hr => ⟨hr.1.inv, hr.1.currentId_eq.trans hid⟩

theorem Inv.swapSongsId_succeeds [Qsort] [DecidableEq σ] (h : pl.Inv) (id₁ id₂ : ℕ) :
    (pl.swapSongsId id₁ id₂).Succeeds fun r => r.1.Inv :=
  .branch (.ok h) <| (h.swapSongs_succeeds _ _).mono fun _ hr => hr.1

/-! ### Priorities -/

theorem Core.rememberPosition_current (h : pl.Core) :
    pl.queue.rememberPosition pl.current = .ok pl.designated := by
  by_cases h0 : 0 ≤ pl.current
  · have hlt := h.current_lt
    rw [Queue.rememberPosition, if_pos h0, h.unsigned_current h0,
      orderToPosition_eq (by omega), h.designated_eq h0]
    rfl
  · rw [Queue.rememberPosition, if_neg h0, designated_of_neg (by omega)]

theorem Core.restoreCurrent_succeeds (h : pl.Core) {q : Queue σ} (hq : q.Inv)
    (hlen : q.length = pl.queue.length) (hids : ∀ p, (q.items p).id = (pl.queue.items p).id) :
    (restoreCurrent { pl with queue := q } pl.designated).Succeeds fun pl' =>
      pl' = { pl with queue := q, current := pl'.current } ∧ pl'.Core ∧
      (0 ≤ pl.current → 0 ≤ pl'.current) ∧ pl'.currentId = pl.currentId := by
  have hlt := h.current_lt
  by_cases h0 : 0 ≤ pl.current
  · rw [h.designated_eq h0, restoreCurrent]
    have hpos : pl.queue.order pl.current.toNat < q.length := by
      rw [hlen]
      exact h.queue.order_lt (by omega)
    refine (hq.positionToOrder_succeeds hpos).bind fun o ho => .ok ?_
    refine ⟨rfl, ⟨hq, ?_, Int.ofNat_lt.mpr ho.1, h.updates⟩, fun _ => Int.natCast_nonneg o,
      currentId_congr hlt (fun hn => absurd h0 (by omega)) fun c hc _ => ⟨o, rfl, ho.1, ?_⟩⟩
    · show -1 ≤ (o : ℤ)
      omega
    · show (q.items (q.order o)).id = _
      rw [ho.2, hids, hc, Int.toNat_natCast]
  · rw [designated_of_neg (by omega)]
    refine .ok ⟨rfl, ⟨hq, h.current_ge, ?_, h.updates⟩, fun hp => absurd hp h0,
      currentId_congr hlt id fun c hc _ => absurd h0 (by omega)⟩
    show pl.current < q.length
    omega

theorem Inv.applyPriority_succeeds [Qsort] [DecidableEq σ] (h : pl.Inv) {start stop : ℕ}
    (h₁ : start ≤ stop) (h₂ : stop ≤ pl.queue.length) (priority : ℕ) :
    (pl.applyPriority start stop priority).Succeeds fun r => r.1.Inv ∧
      r.1.currentId = pl.currentId := by
  rw [applyPriority, h.rememberPosition_current, ok_bind]
  refine h.getQueuedSong_succeeds.bind fun prev hprev => ?_
  refine ((h.queue.setPriorityRange_succeeds h₁ h₂ h.current_lt).and_yields
    (pl.queue.setPriorityRange_yields h₁ priority pl.current)).bind fun r hr => ?_
  have hlen : r.1.length = pl.queue.length := by rw [hr.2]; rfl
  have hids : ∀ p, (r.1.items p).id = (pl.queue.items p).id := by
    rw [hr.2]
    exact pl.queue.withPriorities_id start stop priority
  refine (h.restoreCurrent_succeeds hr.1 hlen hids).bind ?_
  rintro pl₁ ⟨hframe, hcore, h0, hid⟩
  have hedit : pl₁.Editing prev := by
    refine hprev.of_core hcore ?_ ?_ fun hp => h0 (h.playing hp) <;> rw [hframe]
  exact hedit.finishEdit_succeeds.mono fun r hr => ⟨hr.1.inv, hr.1.currentId_eq.trans hid⟩

theorem Inv.setPriority_succeeds [Qsort] [DecidableEq σ] (h : pl.Inv) (start stop priority : ℕ) :
    (pl.setPriority start stop priority).Succeeds fun r => r.1.Inv ∧
      r.1.currentId = pl.currentId := by
  refine .branch (.ok ⟨h, rfl⟩) ?_
  refine .ite (fun _ => .ok ⟨h, rfl⟩) fun hlt => ?_
  exact h.applyPriority_succeeds (not_le.mp hlt).le (Nat.min_le_right _ _) priority

theorem Inv.setPriorityId_succeeds [Qsort] [DecidableEq σ] (h : pl.Inv) (id priority : ℕ) :
    (pl.setPriorityId id priority).Succeeds fun r => r.1.Inv :=
  .branch (.ok h) <| (h.setPriority_succeeds _ _ _).mono fun _ hr => hr.1

/-! ### Moving songs -/

def currentSong (pl : Playlist σ) : ℤ :=
  pl.designated.elim (-1) fun p => (p : ℤ)

def moved (pl : Playlist σ) (start stop dst : ℕ) : Playlist σ :=
  { pl with
    queue := pl.queue.moveRangeBody start stop dst
    current := if pl.queue.random then pl.current else moveCurrent pl.current start stop dst }

theorem moveCurrent_bounds {start stop dst n : ℕ} (h : Queue.InRange start stop dst n) {c : ℤ}
    (h₁ : -1 ≤ c) (h₂ : c < n) :
    -1 ≤ moveCurrent c start stop dst ∧ moveCurrent c start stop dst < n ∧
      (0 ≤ c ↔ 0 ≤ moveCurrent c start stop dst) := by
  obtain ⟨h₃, h₄, h₅⟩ := h
  unfold moveCurrent
  split_ifs <;> omega

theorem Inv.moved_core (h : pl.Inv) {start stop dst : ℕ}
    (hr : Queue.InRange start stop dst pl.queue.length) :
    (pl.moved start stop dst).Core ∧ (0 ≤ pl.current → 0 ≤ (pl.moved start stop dst).current) := by
  have hn : pl.queue.length < 2147483648 := by have := h.queue.length_lt; omega
  have hlen := moveRangeBody_length hr hn
  obtain ⟨h₁, h₂, h₃⟩ := moveCurrent_bounds hr h.current_ge h.current_lt
  have hge := h.current_ge
  have hlt := h.current_lt
  refine ⟨⟨h.queue.moveRangeBody hr, ?_, ?_, h.updates⟩, ?_⟩ <;> simp only [moved, hlen] <;>
    split <;> omega

theorem Inv.moved_currentId (h : pl.Inv) {start stop dst : ℕ}
    (hr : Queue.InRange start stop dst pl.queue.length) (hrandom : pl.queue.random = true) :
    (pl.moved start stop dst).currentId = pl.currentId := by
  have hn : pl.queue.length < 2147483648 := by have := h.queue.length_lt; omega
  have hcur : (pl.moved start stop dst).current = pl.current := if_pos hrandom
  refine currentId_congr h.current_lt (fun hneg => hcur.trans_lt hneg) fun c hc hlt => ?_
  refine ⟨c, hcur.trans hc, ?_, ?_⟩
  · show c < (pl.queue.moveRangeBody start stop dst).length
    rwa [moveRangeBody_length hr hn]
  · show ((pl.queue.moveRangeBody start stop dst).items
      ((pl.queue.moveRangeBody start stop dst).order c)).id = _
    rw [h.queue.moveRangeBody_order hr hrandom hlt, moveRangeBody_id pl.queue hr hn,
      rangeSource_rangeTarget hr.start_le]

theorem Inv.performMove_succeeds [Qsort] [DecidableEq σ] (h : pl.Inv) (hprev : pl.Editing prev)
    {start stop dst : ℕ} (hr : Queue.InRange start stop dst pl.queue.length) :
    (pl.performMove start stop dst prev).Succeeds fun r => r.1.Inv ∧
      Keeps (pl.moved start stop dst).incrementVersion r.1 ∧ r.2 = .success := by
  have hn := h.queue.length_lt
  have hdst : unsigned (dst : ℤ) = dst := by
    have := hr.dst_le
    exact unsigned_natCast (by omega)
  have hrandom : (pl.queue.moveRangeBody start stop dst).random = pl.queue.random :=
    random_eq (moveRangeBody_settings hr (by omega))
  obtain ⟨hcore, h0⟩ := h.moved_core hr
  have hedit : (pl.moved start stop dst).Editing prev :=
    hprev.of_core hcore rfl rfl fun hp => h0 (h.playing hp)
  rw [performMove, hdst, h.queue.moveRange_eq hr, ok_bind]
  simp only [hrandom]
  exact hedit.finishEdit_succeeds.mono fun r hr' => ⟨hr'.1.inv, hr'.1.keeps, hr'.2⟩

instance {start stop dst n : ℕ} : Decidable (Queue.InRange start stop dst n) :=
  decidable_of_iff (start ≤ stop ∧ stop ≤ n ∧ dst + (stop - start) ≤ n)
    ⟨fun h => ⟨h.1, h.2.1, h.2.2⟩, fun h => ⟨h.1, h.2, h.3⟩⟩

def NothingToMove (pl : Playlist σ) (start stop : UInt32) (dst : Int32) : Prop :=
  (start.toNat : ℤ) = dst.toInt ∨ (dst.toInt < 0 ∧ 0 ≤ pl.current ∧
    (start.toNat : ℤ) ≤ pl.currentSong ∧ pl.currentSong < stop.toNat)

instance (pl : Playlist σ) (start stop : UInt32) (dst : Int32) :
    Decidable (pl.NothingToMove start stop dst) :=
  inferInstanceAs (Decidable (_ ∨ _))

theorem Inv.moveRange_cases [Qsort] [DecidableEq σ] (h : pl.Inv) (start stop : UInt32)
    (dst : Int32) :
    (pl.moveBadRange start.toNat stop.toNat dst.toInt = true ∧
      pl.moveRange start stop dst = .ok (pl, .badRange)) ∨
    (pl.moveBadRange start.toNat stop.toNat dst.toInt = false ∧ pl.NothingToMove start stop dst ∧
      pl.moveRange start stop dst = .ok (pl, .success)) ∨
    (pl.moveBadRange start.toNat stop.toNat dst.toInt = false ∧
      ¬ pl.NothingToMove start stop dst ∧ ∃ prev, pl.Editing prev ∧
        pl.moveRange start stop dst = pl.performMove start.toNat stop.toNat
          (pl.moveTarget start.toNat dst.toInt pl.currentSong) prev) := by
  rw [moveRange]
  cases hbad : pl.moveBadRange start.toNat stop.toNat dst.toInt with
  | true => exact .inl ⟨rfl, rfl⟩
  | false =>
    by_cases heq : (start.toNat : ℤ) = dst.toInt
    · rw [if_pos heq]
      exact .inr (.inl ⟨rfl, .inl heq, rfl⟩)
    · obtain ⟨prev, hprev, hedit⟩ := h.getQueuedSong_succeeds
      obtain ⟨song, hsong, hval⟩ := h.getCurrentSong_succeeds
      obtain rfl : song = pl.currentSong := hval
      rw [if_neg heq, hprev, ok_bind, hsong, ok_bind]
      by_cases hself : dst.toInt < 0 ∧ 0 ≤ pl.current ∧ (start.toNat : ℤ) ≤ pl.currentSong ∧
          pl.currentSong < stop.toNat
      · rw [if_pos hself]
        exact .inr (.inl ⟨rfl, .inr hself, rfl⟩)
      · rw [if_neg hself]
        exact .inr (.inr ⟨rfl, not_or.mpr ⟨heq, hself⟩, prev, hedit, rfl⟩)

def MoveInRange (pl : Playlist σ) (start stop : UInt32) (dst : Int32) : Prop :=
  pl.moveBadRange start.toNat stop.toNat dst.toInt = true ∨ pl.NothingToMove start stop dst ∨
  0 ≤ pl.moveTarget start.toNat dst.toInt pl.currentSong ∧
    Queue.InRange start.toNat stop.toNat
      (pl.moveTarget start.toNat dst.toInt pl.currentSong).toNat pl.queue.length

instance (pl : Playlist σ) (start stop : UInt32) (dst : Int32) :
    Decidable (pl.MoveInRange start stop dst) :=
  inferInstanceAs (Decidable (_ ∨ _ ∨ _ ∧ _))

section

variable [Qsort] [DecidableEq σ] (h : pl.Inv) {start stop : UInt32} {dst : Int32}
  (hr : pl.MoveInRange start stop dst)
include h hr

theorem Inv.moveRange_eq : (∃ result, pl.moveRange start stop dst = .ok (pl, result)) ∨
      ∃ prev, pl.Editing prev ∧ ∃ t : ℕ, Queue.InRange start.toNat stop.toNat t pl.queue.length ∧
        pl.moveRange start stop dst = pl.performMove start.toNat stop.toNat t prev := by
  rcases h.moveRange_cases start stop dst with
    ⟨-, heq⟩ | ⟨-, -, heq⟩ | ⟨hbad, hmove, prev, hprev, heq⟩
  · exact .inl ⟨_, heq⟩
  · exact .inl ⟨_, heq⟩
  · obtain hr | hr | ⟨h0, hr⟩ := hr
    · exact absurd hr (by simp [hbad])
    · exact absurd hr hmove
    · obtain ⟨t, ht⟩ := Int.eq_ofNat_of_zero_le h0
      rw [ht, Int.toNat_natCast] at hr
      exact .inr ⟨prev, hprev, t, hr, by rw [heq, ht]⟩

/-- **Moving songs** within the queue: nothing happens, or the block is moved. -/
theorem Inv.moveRange_succeeds :
    (pl.moveRange start stop dst).Succeeds fun r => r.1.Inv ∧ (r.1 = pl ∨
      ∃ t : ℕ, Queue.InRange start.toNat stop.toNat t pl.queue.length ∧
        Keeps (pl.moved start.toNat stop.toNat t).incrementVersion r.1) := by
  obtain ⟨result, heq⟩ | ⟨prev, hprev, t, ht, heq⟩ := h.moveRange_eq hr
  · exact ⟨_, heq, h, .inl rfl⟩
  · rw [heq]
    exact (h.performMove_succeeds hprev ht).mono fun r hr' => ⟨hr'.1, .inr ⟨t, ht, hr'.2.1⟩⟩

end

def MoveIdInRange (pl : Playlist σ) (id : ℕ) (dst : Int32) : Prop :=
  pl.queue.positionOfId id < 0 ∨
    pl.MoveInRange (.ofNat (pl.queue.positionOfId id).toNat)
      (.ofNat ((pl.queue.positionOfId id).toNat + 1)) dst
  deriving Decidable

theorem Inv.moveId_succeeds [Qsort] [DecidableEq σ] (h : pl.Inv) {id : ℕ} {dst : Int32}
    (hr : pl.MoveIdInRange id dst) :
    (pl.moveId id dst).Succeeds fun r => r.1.Inv := by
  refine .ite (fun _ => .ok h) fun hid => ?_
  exact (h.moveRange_succeeds (hr.resolve_left hid)).mono fun _ hr' => hr'.1

/-! ### Shuffling songs -/

/-- What `playlist_shuffle` has done before the shuffle: the current song of a playing playlist
lies outside the range to be shuffled. -/
structure ReadyToShuffle (pl : Playlist σ) (stop : ℕ) (pl' : Playlist σ) (start : ℕ) : Prop where
  core : pl'.Core
  length : pl'.queue.length = pl.queue.length
  playing : pl'.playing = pl.playing
  queued : pl'.queued = pl.queued
  current : pl.playing = true → 0 ≤ pl'.current ∧ pl'.currentId = pl.currentId
  outside : ∀ c : ℕ, pl'.current = c →
    ¬ (start ≤ pl'.queue.order c ∧ pl'.queue.order c < stop)

theorem Inv.shuffleStart_succeeds (h : pl.Inv) (start : ℕ) {stop : ℕ}
    (hstop : stop ≤ pl.queue.length) :
    (pl.shuffleStart start stop).Succeeds fun r => ReadyToShuffle pl stop r.1 r.2 := by
  have hlt := h.current_lt
  refine .ite (fun hplay => ?_) fun hplay => ?_
  · obtain ⟨c, hc⟩ := Int.eq_ofNat_of_zero_le hplay.2
    have hc' : c < pl.queue.length := by omega
    have hn := h.queue.length_lt
    rw [hc, unsigned_natCast (by omega), orderToPosition_eq hc', ok_bind]
    refine .ite (fun hin => ?_) fun hout => ?_
    · -- the current song changes places with the first one of the range
      have hstart : start < pl.queue.length := by omega
      have hinv := h.queue.swap hstart (h.queue.order_lt hc')
      refine (orderOf_succeeds hinv hstart).bind fun o ho => .ok ?_
      have ho' : o < pl.queue.length := ho.1
      refine ⟨⟨hinv, ?_, Int.ofNat_lt.mpr ho', h.updates⟩, rfl, rfl, rfl,
        fun _ => ⟨Int.natCast_nonneg o, currentId_congr hlt ?_ ?_⟩, fun c' hc'' => ?_⟩
      · show -1 ≤ (o : ℤ)
        omega
      · exact fun hneg => absurd hplay.2 (by omega)
      · intro c₁ hc₁ _
        obtain rfl : c₁ = c := by omega
        refine ⟨o, rfl, ho', ?_⟩
        rw [ho.2, swap_id, swap_apply_left]
      · obtain rfl : o = c' := Int.ofNat_inj.mp hc''
        show ¬ (start + 1 ≤ (pl.queue.swap start (pl.queue.order c)).order o ∧ _)
        omega
    · refine .ok ⟨h.toCore, rfl, rfl, rfl, fun _ => ⟨hplay.2, rfl⟩, fun c' hc'' => ?_⟩
      have hc'' : pl.current = c' := hc''
      obtain rfl : c' = c := by omega
      exact hout
  · refine .ok ⟨⟨h.queue, le_rfl, ?_, h.updates⟩, rfl, rfl, rfl,
      fun hp => absurd ⟨hp, h.playing hp⟩ hplay, fun c hc => ?_⟩
    · show -1 < (pl.queue.length : ℤ)
      omega
    · have : (-1 : ℤ) = c := hc
      omega

theorem ReadyToShuffle.shuffleRange {stop start : ℕ} (h : ReadyToShuffle pl stop pl' start)
    (hstop : stop ≤ pl.queue.length) :
    Core { pl' with queue := pl'.queue.shuffleRange start stop } ∧
      currentId { pl' with queue := pl'.queue.shuffleRange start stop } = pl'.currentId := by
  have hs := shuffled_shuffleRange pl'.queue start (h.length.symm ▸ hstop)
  have hlen : (pl'.queue.shuffleRange start stop).length = pl'.queue.length := by rw [hs.frame]
  have hord : (pl'.queue.shuffleRange start stop).order = pl'.queue.order := by rw [hs.frame]
  refine ⟨⟨hs.inv h.core.queue, h.core.current_ge, ?_, h.core.updates⟩,
    currentId_congr h.core.current_lt id fun c hc hlt => ⟨c, hc, ?_, ?_⟩⟩
  · show pl'.current < (pl'.queue.shuffleRange start stop).length
    rw [hlen]
    exact h.core.current_lt
  · show c < (pl'.queue.shuffleRange start stop).length
    rwa [hlen]
  · show ((pl'.queue.shuffleRange start stop).items
      ((pl'.queue.shuffleRange start stop).order c)).id = _
    rw [hord, hs.untouched _ (h.outside c hc)]

theorem Inv.shuffle_succeeds [Qsort] [DecidableEq σ] (h : pl.Inv) (start stop : ℕ) :
    (pl.shuffle start stop).Succeeds fun pl' => pl'.Inv ∧
      (pl.playing = true → pl'.currentId = pl.currentId) := by
  have hstop : min stop pl.queue.length ≤ pl.queue.length := Nat.min_le_right _ _
  refine .branch (.ok ⟨h, fun _ => rfl⟩) ?_
  refine h.getQueuedSong_succeeds.bind fun prev hprev => ?_
  refine (h.shuffleStart_succeeds start hstop).bind ?_
  rintro ⟨pl₁, start'⟩ h₁
  obtain ⟨hcore, hid⟩ := h₁.shuffleRange hstop
  have hedit : Editing
      { pl₁ with queue := pl₁.queue.shuffleRange start' (min stop pl.queue.length) } prev :=
    hprev.of_core hcore h₁.playing h₁.queued fun hp => (h₁.current hp).1
  refine hedit.finishEdit_succeeds.bind fun r hr =>
    .ok ⟨hr.1.inv, fun hp => ?_⟩
  rw [hr.1.currentId_eq, hid, (h₁.current hp).2]

/-! ### Clearing the queue, and versions -/

section Clear

theorem forgetSong_eq [SongRef σ] (pl : Playlist σ) (song : σ) :
    ∃ pc, pl.forgetSong song = { pl with pc := pc } ∧ pc.views = pl.pc.views := by
  rw [forgetSong]
  split <;> exact ⟨_, rfl, rfl⟩

theorem forgetSongs_frame [SongRef σ] (pl : Playlist σ) :
    pl.forgetSongs = { pl with pc := pl.forgetSongs.pc } :=
  forUp_induction (motive := fun _ (pl' : Playlist σ) => pl' = { pl with pc := pl'.pc })
    (Nat.zero_le _) rfl fun i pl' _ _ hpl' => by
      obtain ⟨pc, hpc, -⟩ := forgetSong_eq pl' (pl'.queue.items i).song
      rw [hpc, hpl']

theorem Inv.clear_succeeds [Qsort] [SongRef σ] (h : pl.Inv) : pl.clear.Succeeds Inv := by
  refine h.stop_succeeds.bind ?_
  rintro pl₁ ⟨h₁, -, hplay⟩
  refine .ok ?_
  rw [forgetSongs_frame]
  have hcore : Core { pl₁ with
      pc := pl₁.forgetSongs.pc
      queue := pl₁.queue.clear
      current := -1 } :=
    ⟨h₁.queue.clear, le_rfl, show (-1 : ℤ) < (0 : ℕ) by decide, h₁.updates⟩
  exact .of_stopped hcore.incrementVersion hplay (h₁.stopped hplay)

end Clear

theorem Inv.incrementVersion (h : pl.Inv) : pl.incrementVersion.Inv where
  toCore := h.toCore.incrementVersion
  playing := h.playing
  queued_ge := h.queued_ge
  queued_lt := by
    simp only [Playlist.incrementVersion, incrementVersion_length]
    exact h.queued_lt
  stopped := h.stopped

theorem Inv.incrementVersionAll (h : pl.Inv) : pl.incrementVersionAll.Inv := by
  have hq : Queue.Inv { pl.queue with
      items := fun i => if i < pl.queue.length then (pl.queue.items i).stamp pl.queue.version
        else pl.queue.items i } := by
    refine h.queue.congr rfl rfl rfl (fun p => ?_) h.queue.order_bijOn h.queue.order_eq
    dsimp only
    split <;> rfl
  exact (h.withQueue hq rfl).incrementVersion

theorem Inv.tagChanged_succeeds (h : pl.Inv) : pl.tagChanged.Succeeds Inv := by
  refine .ite (fun hplay => ?_) fun _ => .ok h
  have h0 := h.playing hplay
  have hlt := h.current_lt
  rw [Queue.modify, h.unsigned_current h0, orderToPosition_eq (by omega), ok_bind]
  set p := pl.queue.order pl.current.toNat
  have hq : Queue.Inv { pl.queue with
      items := Function.update pl.queue.items p ((pl.queue.items p).stamp pl.queue.version) } := by
    refine h.queue.congr rfl rfl rfl (fun p' => ?_) h.queue.order_bijOn h.queue.order_eq
    dsimp only
    rcases eq_or_ne p' p with rfl | hne
    · rw [Function.update_self, QueueItem.stamp]
    · rw [Function.update_of_ne hne]
  exact .ok (h.withQueue hq rfl).incrementVersion

end Playlist

end Mpd
