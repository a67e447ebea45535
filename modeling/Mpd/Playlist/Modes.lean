import Mpd.Playlist.Invariant

/-!
# The playlist: playback modes and playback control

The commands that do not edit the queue keep the playlist consistent: switching repeat, single,
consume and random mode, and starting, seeking and stopping. Switching a mode keeps the current
song; random mode is switched on and off around it.
-/

namespace Mpd

open Arrangement

namespace Playlist

variable {σ : Type} {pl pl' : Playlist σ} {prev : Option σ}

/-! ### Repeat, single and consume -/

theorem Inv.withQueue (h : pl.Inv) {q : Queue σ} (hq : q.Inv)
    (hlen : q.length = pl.queue.length) : Inv { pl with queue := q } where
  queue := hq
  current_ge := h.current_ge
  current_lt := by
    have := h.current_lt
    show pl.current < q.length
    omega
  updates := h.updates
  playing := h.playing
  queued_ge := h.queued_ge
  queued_lt := by
    have := h.queued_lt
    show pl.queued < q.length
    omega
  stopped := h.stopped

theorem Inv.modeChanged_succeeds [Qsort] [DecidableEq σ] (h : pl.Inv) :
    pl.modeChanged.Succeeds fun pl' => pl'.Inv ∧ Keeps pl pl' := by
  let pl₁ := pl.send (.setBorderPause (pl.queue.single && !pl.queue.repeat_))
  have h₁ : pl₁.Inv := h.congr rfl rfl rfl rfl rfl
  have hkeeps : Keeps pl pl₁ := .of_eq rfl rfl rfl
  refine h₁.getQueuedSong_succeeds.bind fun prev hprev => ?_
  exact hprev.updateQueuedSong_succeeds.mono fun pl' hpl' => ⟨hpl'.1, hkeeps.trans hpl'.2.1⟩

theorem currentId_withFlags (pl : Playlist σ) {q : Queue σ} (hlen : q.length = pl.queue.length)
    (horder : q.order = pl.queue.order) (hitems : q.items = pl.queue.items) :
    currentId { pl with queue := q } = pl.currentId := by
  rw [currentId, currentId, designated, designated]
  simp only [hlen, horder, hitems]

theorem Inv.withModes (h : pl.Inv) (repeat_ single consume : Bool) (rand : Draws) :
    Inv { pl with queue := { pl.queue with repeat_, single, consume, rand } } :=
  h.withQueue (h.queue.congr rfl rfl rfl (fun _ => rfl) h.queue.order_bijOn h.queue.order_eq) rfl

theorem Inv.withRandom (h : pl.Inv) : Inv { pl with queue := { pl.queue with random := true } } :=
  h.withQueue (h.queue.congr rfl rfl rfl (fun _ => rfl) h.queue.order_bijOn
    fun hf => absurd hf (by simp)) rfl

theorem Inv.setMode_succeeds [Qsort] [DecidableEq σ] (h : pl.Inv) {c : Prop} [Decidable c]
    (repeat_ single : Bool) : (if c then .ok pl else
      modeChanged { pl with queue := { pl.queue with repeat_, single } }).Succeeds fun pl' =>
        pl'.Inv ∧ pl'.currentId = pl.currentId := by
  refine .branch (.ok ⟨h, rfl⟩) ?_
  refine (h.withModes repeat_ single _ _).modeChanged_succeeds.mono fun pl' hpl' => ⟨hpl'.1, ?_⟩
  exact hpl'.2.currentId_eq.trans (pl.currentId_withFlags rfl rfl rfl)

theorem Inv.setRepeat_succeeds [Qsort] [DecidableEq σ] (h : pl.Inv) (status : Bool) :
    (pl.setRepeat status).Succeeds fun pl' => pl'.Inv ∧ pl'.currentId = pl.currentId :=
  h.setMode_succeeds status _

theorem Inv.setSingle_succeeds [Qsort] [DecidableEq σ] (h : pl.Inv) (status : Bool) :
    (pl.setSingle status).Succeeds fun pl' => pl'.Inv ∧ pl'.currentId = pl.currentId :=
  h.setMode_succeeds _ status

theorem Inv.setConsume (h : pl.Inv) (status : Bool) : (pl.setConsume status).Inv :=
  h.withModes _ _ status _

/-! ### Random -/

/-- What switching random mode does: the songs stay where they are, and the current song of a
playing playlist stays the current one. -/
structure Reordered (pl pl' : Playlist σ) : Prop where
  frame : pl' = { pl with queue := pl'.queue, current := pl'.current }
  queue : pl'.queue.Inv
  items : pl'.queue.items = pl.queue.items
  length : pl'.queue.length = pl.queue.length
  current_ge : -1 ≤ pl'.current
  current_lt : pl'.current < pl'.queue.length
  designated : pl.playing = true → 0 ≤ pl'.current ∧ pl'.designated = pl.designated

theorem Inv.rememberPosition_eq (h : pl.Inv) :
    pl.queue.rememberPosition (if pl.playing then pl.current else -1) =
      .ok (if pl.playing then pl.designated else none) := by
  by_cases hplay : pl.playing = true
  · have h0 := h.playing hplay
    have hlt := h.current_lt
    rw [if_pos hplay, if_pos hplay, h.designated_eq h0, Queue.rememberPosition, if_pos h0,
      h.unsigned_current h0, Queue.orderToPosition_eq (by omega)]
    rfl
  · rw [if_neg hplay, if_neg hplay]
    rfl

theorem Inv.startRandom_succeeds [Qsort] (h : pl.Inv) (hrandom : pl.queue.random = true) :
    pl.startRandom.Succeeds (Reordered pl) := by
  rw [startRandom, h.rememberPosition_eq, Except.ok_bind]
  refine pl.queue.shuffleOrder_succeeds.bind fun q hq => ?_
  have hinv := h.queue.of_rearranged hrandom hq.1 hq.2.1
  have hlen : q.length = pl.queue.length := by rw [hq.1]; rfl
  have hitems : q.items = pl.queue.items := by rw [hq.1]; rfl
  have hrandom' : q.random = true := by rw [hq.1]; exact hrandom
  by_cases hplay : pl.playing = true
  · have h0 := h.playing hplay
    have hlt := h.current_lt
    have hdes := h.designated_eq h0
    have hpos : pl.queue.order pl.current.toNat < q.length :=
      hlen ▸ h.queue.order_lt (by omega)
    rw [if_pos hplay, hdes, currentFirst]
    refine (hinv.positionToOrder_succeeds hpos).bind fun o ho => ?_
    have hzero : 0 < q.length := by omega
    -- the song at order number `o` changes places with the first one
    have hfirst : (q.swapOrder 0 o).order 0 = pl.queue.order pl.current.toNat := by
      show swapAt q.order 0 o 0 = _
      rw [swapAt_eq_comp, Function.comp_apply, Equiv.swap_apply_left, ho.2]
    refine .ok ⟨rfl, hinv.swapOrder hrandom' hzero ho.1, hitems, hlen,
      show (-1 : ℤ) ≤ 0 by decide, Int.ofNat_lt.mpr hzero, fun _ => ⟨le_rfl, ?_⟩⟩
    rw [hdes, designated_natCast rfl hzero]
    exact congrArg some hfirst
  · rw [if_neg hplay]
    refine .ok ⟨rfl, hinv, hitems, hlen, le_rfl, ?_, fun hp => absurd hp hplay⟩
    exact lt_of_lt_of_le (show (-1 : ℤ) < 0 by decide) (Int.natCast_nonneg _)

theorem Inv.restoreOrder_succeeds (h : pl.Inv) :
    (restoreOrder { pl with queue := { pl.queue with random := false } }).Succeeds
      (Reordered pl) := by
  have hinv : Queue.Inv { pl.queue with random := false }.restoreOrder :=
    h.queue.restoreOrder rfl rfl rfl fun _ => rfl
  refine h.getCurrentSong_succeeds.bind fun song hsong => .ok ?_
  by_cases h0 : 0 ≤ pl.current
  · have hlt := h.current_lt
    have hpos : pl.queue.order pl.current.toNat < pl.queue.length := h.queue.order_lt (by omega)
    rw [h.designated_eq h0] at hsong
    have hsong : song = pl.queue.order pl.current.toNat := hsong
    refine ⟨rfl, hinv, rfl, rfl, ?_, ?_, fun _ => ⟨?_, ?_⟩⟩
    · show -1 ≤ song
      omega
    · show song < pl.queue.length
      omega
    · show 0 ≤ song
      omega
    · rw [h.designated_eq h0]
      exact Eq.trans (designated_natCast hsong hpos) (congrArg some (if_pos hpos))
  · rw [designated_of_neg (by omega)] at hsong
    have hsong : song = -1 := hsong
    refine ⟨rfl, hinv, rfl, rfl, hsong.ge, ?_, fun hp => absurd (h.playing hp) h0⟩
    show song < pl.queue.length
    omega

theorem Inv.applyRandom_succeeds [Qsort] (h : pl.Inv) (status : Bool) :
    (applyRandom { pl with queue := { pl.queue with random := status } } status).Succeeds
      (Reordered pl) := by
  cases status with
  | true =>
    refine (h.withRandom.startRandom_succeeds rfl).mono fun pl' hpl' => ?_
    exact ⟨hpl'.frame, hpl'.queue, hpl'.items, hpl'.length, hpl'.current_ge, hpl'.current_lt,
      hpl'.designated⟩
  | false => exact h.restoreOrder_succeeds

/-- **Random mode** is switched on and off around the current song of a playing playlist. -/
theorem Inv.setRandom_succeeds [Qsort] [DecidableEq σ] (h : pl.Inv) (status : Bool) :
    (pl.setRandom status).Succeeds fun pl' => pl'.Inv ∧
      (pl.playing = true → pl'.currentId = pl.currentId) := by
  refine .branch (.ok ⟨h, fun _ => rfl⟩) ?_
  refine h.getQueuedSong_succeeds.bind fun prev hprev => ?_
  refine (h.applyRandom_succeeds status).bind fun pl₁ h₁ => ?_
  have hplay : pl₁.playing = pl.playing := by rw [h₁.frame]
  have hqueued : pl₁.queued = pl.queued := by rw [h₁.frame]
  have hedit : pl₁.Editing prev := by
    refine ⟨⟨h₁.queue, h₁.current_ge, h₁.current_lt, ?_⟩, ?_, ?_, ?_, ?_⟩
    · rw [h₁.frame]
      exact h.updates
    · exact fun hp => (h₁.designated (hplay ▸ hp)).1
    · rw [hqueued]
      exact h.queued_ge
    · rw [hqueued, hplay]
      exact h.stopped
    · rw [hqueued]
      exact hprev.prev_iff
  refine hedit.updateQueuedSong_succeeds.mono fun pl' hpl' => ⟨hpl'.1, fun hp => ?_⟩
  rw [hpl'.2.1.currentId_eq, currentId, currentId, (h₁.designated hp).2, h₁.items]

/-! ### Starting playback -/

theorem Inv.send (h : pl.Inv) (request : PlayerRequest σ) : (pl.send request).Inv :=
  h.congr rfl rfl rfl rfl rfl

theorem Inv.seen (h : pl.Inv) : pl.seen.Inv :=
  h.congr rfl rfl rfl rfl rfl

theorem Inv.goingOn (h : pl.Inv) : Inv { pl with stopOnError := false } :=
  h.congr rfl rfl rfl rfl rfl

theorem Inv.seeking (h : pl.Inv) :
    Inv { pl.send .clearError with stopOnError := true, errorCount := 0 } :=
  h.congr rfl rfl rfl rfl rfl

section

variable (pl : Playlist σ) (hq : pl.queue.Inv) (hu : ∀ u ∈ pl.updates, u.1 = u.2) {o : ℕ}
  (ho : o < pl.queue.length)
include hq hu ho

theorem playOrder_succeeds :
    (pl.playOrder o).Succeeds fun pl' => pl'.Inv ∧ pl'.queue = pl.queue ∧ pl'.current = o := by
  rw [pl.playOrder_eq hq ho]
  refine .ok ⟨⟨⟨hq, ?_, ?_, hu⟩, fun _ => ?_, ?_, ?_, ?_⟩, rfl, rfl⟩
  · show -1 ≤ (o : ℤ)
    omega
  · exact Int.ofNat_lt.mpr ho
  · exact Int.natCast_nonneg o
  · exact le_rfl
  · show -1 < (pl.queue.length : ℤ)
    omega
  · exact fun hp => absurd hp (by simp [Playlist.send])

theorem startAt_succeeds :
    (pl.startAt o).Succeeds fun r => r.1.Inv ∧ r.1.designated = some (pl.queue.order o) := by
  refine (playOrder_succeeds { pl with stopOnError := false, errorCount := 0 } hq hu ho).bind
    fun pl' hpl' => .ok ⟨hpl'.1, ?_⟩
  rw [designated_natCast hpl'.2.2 (by rw [hpl'.2.1]; exact ho), hpl'.2.1]

end

theorem Inv.playSong_succeeds (h : pl.Inv) {song : ℤ} {i : ℕ} (hi : i < pl.queue.length)
    (hsong : 0 ≤ song → unsigned song < pl.queue.length) :
    (pl.playSong song i).Succeeds fun r => r.1.Inv := by
  refine .ite (fun hrandom => ?_) fun _ =>
    (pl.startAt_succeeds h.queue h.updates hi).mono fun _ hr => hr.1
  have horder : (pl.songOrder song i).Succeeds fun o => o < pl.queue.length := by
    refine .ite (fun h0 => ?_) fun _ => .ok hi
    exact (h.queue.positionToOrder_succeeds (hsong h0)).mono fun o ho => ho.1
  refine horder.bind fun o ho => ?_
  -- the order number that stays, or becomes, the current one
  obtain ⟨c, hc, hlt⟩ : ∃ c : ℕ, (if pl.playing then pl.current else 0) = (c : ℤ) ∧
      c < pl.queue.length := by
    by_cases hplay : pl.playing = true
    · have h0 := h.playing hplay
      have := h.current_lt
      exact ⟨pl.current.toNat, by rw [if_pos hplay]; omega, by omega⟩
    · exact ⟨0, if_neg hplay, by omega⟩
  have hn := h.queue.length_lt
  simp only [hc, unsigned_natCast (show c < 4294967296 by omega)]
  exact (startAt_succeeds { pl with current := c, queue := pl.queue.swapOrder o c }
    (h.queue.swapOrder hrandom ho hlt) h.updates hlt).mono fun _ hr => hr.1

theorem Inv.play_succeeds (h : pl.Inv) (song : ℤ) : (pl.play song).Succeeds fun r => r.1.Inv := by
  have h₁ := h.send .clearError
  refine .ite (fun hsong => ?_) fun _ => ?_
  · refine .ite (fun _ => .ok h₁) fun hempty => ?_
    refine .branch (.ok (h₁.send _)) ?_
    refine h₁.playSong_succeeds ?_ fun h0 => by omega
    show (if 0 ≤ pl.current then unsigned pl.current else 0) < pl.queue.length
    split
    · rw [h.unsigned_current ‹_›]
      have := h.current_lt
      omega
    · exact Nat.pos_of_ne_zero fun hz => hempty (beq_iff_eq.mpr hz)
  · refine .ite (fun hvalid => ?_) fun _ => .ok h₁
    have hvalid : unsigned song < pl.queue.length := of_decide_eq_true hvalid
    exact h₁.playSong_succeeds hvalid fun _ => hvalid

theorem Inv.playId_succeeds (h : pl.Inv) (id : ℤ) : (pl.playId id).Succeeds fun r => r.1.Inv := by
  refine .branch (h.play_succeeds id) ?_
  exact .branch (.ok h) <| h.play_succeeds _

theorem Inv.previous_succeeds (h : pl.Inv) : pl.previous.Succeeds Inv := by
  have hlt := h.current_lt
  have hplayAt : ∀ o : ℤ, 0 ≤ o → o < pl.queue.length → (pl.playOrder o).Succeeds Inv := by
    intro o h₁ h₂
    obtain ⟨n, rfl⟩ := Int.eq_ofNat_of_zero_le h₁
    exact (pl.playOrder_succeeds h.queue h.updates (Int.ofNat_lt.mp h₂)).mono fun _ h => h.1
  refine .ite (fun hplay => ?_) fun _ => .ok h
  have h0 := h.playing hplay
  refine .ite (fun _ => hplayAt _ (by omega) (by omega)) fun _ => ?_
  exact .ite (fun _ => hplayAt _ (by omega) (by omega)) fun _ => hplayAt _ h0 hlt

/-! ### Seeking -/

theorem orderOf_succeeds {q : Queue σ} (h : q.Inv) {p : ℕ} (hp : p < q.length) :
    (q.orderOf p).Succeeds fun o => o < q.length ∧ q.order o = p := by
  refine .ite (fun _ => h.positionToOrder_succeeds hp) fun hrandom => ?_
  exact .ok ⟨hp, h.order_eq (by simpa using hrandom) p hp⟩

theorem Inv.changeSong_eq (h : pl.Inv) (o : ℕ) :
    pl.changeSong o = { pl with playing := true, current := o } := by
  rw [changeSong]
  split
  · rfl
  · rename_i hc
    push Not at hc
    have h0 := h.playing hc.1
    have h₁ := h.unsigned_current h0
    have hcur : pl.current = o := by omega
    rw [← hcur, ← hc.1]

variable [Qsort] [DecidableEq σ]

theorem seekOrder_succeeds (h : pl.Core) {o : ℕ} (ho : o < pl.queue.length)
    (hcur : pl.current = o) :
    (pl.seekOrder o).Succeeds fun r =>
      r.1.Inv ∧ r.1.designated = some (pl.queue.order o) := by
  rw [seekOrder, h.queue.getOrder_eq ho, Except.ok_bind]
  have hedit : Editing { pl.send (.seek (pl.queue.items (pl.queue.order o)).song) with
      queued := -1 } none :=
    ⟨⟨h.queue, h.current_ge, h.current_lt, h.updates⟩,
      fun _ => hcur.symm ▸ Int.natCast_nonneg o, le_rfl, fun _ => rfl,
      iff_of_true (show (-1 : ℤ) < 0 by decide) rfl⟩
  refine hedit.updateQueuedSong_succeeds.bind fun pl' hpl' =>
    .ok ⟨hpl'.1, hpl'.2.1.designated.trans ?_⟩
  exact designated_natCast hcur ho

theorem Inv.seekSong_succeeds (h : pl.Inv) (song : ℕ) : (pl.seekSong song).Succeeds fun r =>
      r.1.Inv ∧ (song < pl.queue.length → r.1.designated = some song) := by
  refine .ite (fun hvalid => ?_) fun hvalid => .ok
    ⟨h, fun hlt => absurd (decide_eq_true hlt) hvalid⟩
  refine h.getQueuedSong_succeeds.bind fun _ _ => ?_
  refine (orderOf_succeeds h.queue (of_decide_eq_true hvalid)).bind fun o ho => ?_
  dsimp only
  rw [h.seeking.changeSong_eq]
  refine (seekOrder_succeeds ⟨?_, ?_, ?_, ?_⟩ ?_ rfl).mono fun r hr =>
    ⟨hr.1, fun _ => hr.2.trans (congrArg some ho.2)⟩
  · exact h.queue
  · show -1 ≤ (o : ℤ)
    omega
  · exact Int.ofNat_lt.mpr ho.1
  · exact h.updates
  · exact ho.1

theorem Inv.seekSongId_succeeds (h : pl.Inv) (id : ℕ) :
    (pl.seekSongId id).Succeeds fun r => r.1.Inv :=
  .branch (.ok h) <| (h.seekSong_succeeds _).mono fun _ hr => hr.1

theorem Inv.seekCurrent_succeeds (h : pl.Inv) (relative : Bool) :
    (pl.seekCurrent relative).Succeeds fun r => r.1.Inv := by
  refine .branch ?_ <| .ok h
  refine .branch ?_ <| (h.seekSong_succeeds _).mono fun _ hr => hr.1
  exact .branch (.ok h.seen) <| (h.seen.seekSong_succeeds _).mono fun _ hr => hr.1

end Playlist

end Mpd
