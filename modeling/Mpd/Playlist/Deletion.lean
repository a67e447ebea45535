import Mpd.Playlist.Edits

/-!
# The playlist: deleting songs

`playlist_delete_internal` removes one song. If it is the current one of a playing playlist,
playback first leaves it: `replaceCurrent` goes on to the next song, or stops. Stopping in random
mode shuffles the order array around `current`, which fails without a next song, and leaves the
caller with an outdated order number. `Replaceable` is the condition under which neither happens
while the songs of a set of positions are deleted.
-/

namespace Mpd

open Queue Except Arrangement

namespace Playlist

variable {σ : Type} {pl pl' : Playlist σ} {prev : Option σ} {p o : ℕ}

/-! ### Removing a song -/

def removed (pl : Playlist σ) (p order songOrder : ℕ) : Playlist σ :=
  { pl with
    queue := pl.queue.deleted p order
    current := if (songOrder : ℤ) < pl.current then pl.current - 1 else pl.current }

/-- The same playlist, up to the requests sent to the player. -/
structure SameUpToRequests (pl pl' : Playlist σ) : Prop where
  frame : pl' = { pl with pc := pl'.pc }
  views : pl'.pc.views = pl.pc.views

namespace SameUpToRequests

section

variable (h : SameUpToRequests pl pl')
include h

theorem queue_eq : pl'.queue = pl.queue := by
  rw [h.frame]

theorem current_eq : pl'.current = pl.current := by
  rw [h.frame]

theorem playing_eq : pl'.playing = pl.playing := by
  rw [h.frame]

theorem currentId_eq : pl'.currentId = pl.currentId := by
  rw [h.frame]
  rfl

theorem editing (hpl : pl.Editing prev) : pl'.Editing prev := by
  rw [h.frame]
  exact ⟨⟨hpl.queue, hpl.current_ge, hpl.current_lt, hpl.updates⟩, hpl.playing, hpl.queued_ge,
    hpl.stopped, hpl.prev_iff⟩

end

end SameUpToRequests

theorem removeSong_succeeds [SongRef σ] (pl : Playlist σ) (hq : pl.queue.Inv)
    (ho : o < pl.queue.length) (songOrder : ℕ) :
    (pl.removeSong (pl.queue.order o) songOrder).Succeeds
      (SameUpToRequests (pl.removed (pl.queue.order o) o songOrder)) := by
  obtain ⟨pc, hpc, hviews⟩ := pl.forgetSong_eq (pl.queue.items (pl.queue.order o)).song
  rw [removeSong, get_eq (hq.order_lt ho), ok_bind, hpc]
  dsimp only
  rw [hq.delete_eq ho]
  exact .ok ⟨rfl, hviews⟩

theorem Core.removed (h : pl.Core) (ho : o < pl.queue.length) {songOrder : ℕ}
    (hlast : pl.current ≤ songOrder → pl.current + 1 < pl.queue.length) :
    (pl.removed (pl.queue.order o) o songOrder).Core := by
  have hge := h.current_ge
  have hlt := h.current_lt
  have hlen := deleted_length pl.queue (pl.queue.order o) o
  refine ⟨h.queue.deleted ho, ?_, ?_, h.updates⟩
  · show -1 ≤ if (songOrder : ℤ) < pl.current then pl.current - 1 else pl.current
    split <;> omega
  · show (if (songOrder : ℤ) < pl.current then pl.current - 1 else pl.current) <
      (pl.queue.deleted (pl.queue.order o) o).length
    split <;> omega

theorem removed_current {c : ℕ} (hc : pl.current = c) (p order : ℕ) :
    (pl.removed p order o).current = (Queue.deleteTarget o c : ℕ) := by
  simp only [removed, hc, Queue.deleteTarget]
  split_ifs <;> omega

theorem Core.removed_currentId (h : pl.Core) (ho : o < pl.queue.length) (hne : pl.current ≠ o) :
    (pl.removed (pl.queue.order o) o o).currentId = pl.currentId := by
  have hlen := deleted_length pl.queue (pl.queue.order o) o
  refine currentId_congr h.current_lt (fun hneg => ?_) fun c hc hlt => ?_
  · show (if (o : ℤ) < pl.current then pl.current - 1 else pl.current) < 0
    split <;> omega
  · have hco : c ≠ o := fun heq => hne (by rw [hc, heq])
    refine ⟨Queue.deleteTarget o c, removed_current hc _ _, ?_, ?_⟩
    · show _ < (pl.queue.deleted (pl.queue.order o) o).length
      rw [hlen]
      exact deleteTarget_lt hlt ho hco
    · show ((pl.queue.deleteItems (pl.queue.order o)).items
        ((pl.queue.deleted (pl.queue.order o) o).order _)).id = _
      rw [deleted_order_deleteTarget pl.queue hlt ho hco]
      exact pl.queue.deleteItems_id (h.queue.order_lt hlt)
        fun heq => hco (h.queue.order_inj hlt ho heq)

/-! ### Leaving the current song -/

def Paused (pl : Playlist σ) : Prop :=
  pl.pc.view.state = .pause
  deriving Decidable

def leaving (pl : Playlist σ) (next : ℤ) : Playlist σ :=
  { pl.seen with current := next }

section Leave

variable {n : ℕ}

theorem unsigned_seen_current (hq : pl.queue.Inv) (hcur : pl.current = o)
    (ho : o < pl.queue.length) : unsigned pl.seen.current = o := by
  have hlen := hq.length_lt
  show unsigned pl.current = o
  rw [hcur]
  exact unsigned_natCast (by omega)

section

variable [Qsort] (hq : pl.queue.Inv) (hcur : pl.current = o) (ho : o < pl.queue.length)
include hq hcur ho

theorem replaceCurrent_playing (hnext : pl.queue.nextOrder o = n) (hn : n < pl.queue.length)
    (hne : n ≠ o) (hpause : ¬ pl.Paused) :
    (pl.replaceCurrent o).Succeeds fun pl' =>
      pl' = { pl with playing := true, queued := -1, current := n, pc := pl'.pc } ∧
      pl'.pc.views = fun k => pl.pc.views (k + 1) := by
  have hcast := unsigned_seen_current hq hcur ho
  have hnext' : pl.seen.queue.nextOrder (unsigned pl.seen.current) = n := by
    rw [hcast]
    exact hnext
  rw [replaceCurrent, hnext', if_neg (show ¬ (n : ℤ) = o by omega)]
  refine .ite (fun _ => ?_) fun hc => absurd ⟨Int.natCast_nonneg n, hpause⟩ hc
  rw [playOrder_eq { pl.seen with current := (n : ℤ) } hq hn]
  exact .ok ⟨rfl, rfl⟩

theorem replaceCurrent_eq_stop
    {next : ℤ} (hnext : (if pl.queue.nextOrder o = o then -1 else pl.queue.nextOrder o) = next)
    (hstop : next < 0 ∨ pl.Paused) :
    pl.replaceCurrent o = ((pl.leaving next).stop >>= fun pl =>
      pure { pl.send .stop with playing := false }) := by
  have hcast := unsigned_seen_current hq hcur ho
  rw [replaceCurrent, hcast, show (if pl.seen.queue.nextOrder o = o then -1
    else pl.seen.queue.nextOrder o) = next from hnext]
  refine if_neg fun hc => ?_
  have h0 : 0 ≤ next := hc.1
  have hp : ¬ pl.Paused := hc.2
  exact hstop.elim (by omega) hp

theorem replaceCurrent_normal (hplay : pl.playing = true) (hrandom : pl.queue.random = false)
    (next : ℤ) (hnext : (if pl.queue.nextOrder o = o then -1 else pl.queue.nextOrder o) = next)
    (hstop : next < 0 ∨ pl.Paused) :
    (pl.replaceCurrent o).Succeeds fun pl' =>
      pl' = { pl with playing := false, queued := -1, current := next, pc := pl'.pc } := by
  rw [replaceCurrent_eq_stop hq hcur ho hnext hstop, stop_of_normal (pl.leaving next) hplay hrandom]
  exact .ok rfl

end

section

variable [Qsort] (h : pl.Core) (hcur : pl.current = o) (hplay : pl.playing = true)
  (hrandom : pl.queue.random = true)
include h hcur hplay hrandom

theorem Core.replaceCurrent_random
    (hnext : pl.queue.nextOrder o = n) (hn : n < pl.queue.length) (hne : n ≠ o)
    (hpause : pl.Paused) :
    (pl.replaceCurrent o).Succeeds fun pl' => Reshuffled
      { pl with playing := false, queued := -1, current := n, pc := pl'.pc } pl' := by
  have hlt := h.current_lt
  have hcore : (pl.leaving n).halted.Core :=
    ⟨h.queue, show -1 ≤ (n : ℤ) by omega, Int.ofNat_lt.mpr hn, h.updates⟩
  have hnext' : (if pl.queue.nextOrder o = o then -1 else pl.queue.nextOrder o) = (n : ℤ) := by
    rw [hnext, if_neg (by omega)]
  rw [replaceCurrent_eq_stop h.queue hcur (by omega) hnext' (.inr hpause),
    stop_of_random (pl.leaving n) hplay hrandom]
  refine (hcore.reshuffle_succeeds hrandom (Int.natCast_nonneg n)).bind fun pl' hpl' => ?_
  refine .ok ⟨?_, hpl'.shuffle, hpl'.current⟩
  rw [hpl'.frame]
  rfl

theorem Core.replaceCurrent_fault (hnext : pl.queue.nextOrder o = -1 ∨ pl.queue.nextOrder o = o) :
    pl.replaceCurrent o = .error (.order 4294967295) := by
  have hlt := h.current_lt
  have hn := h.queue.length_lt
  have hnext' : (if pl.queue.nextOrder o = o then -1 else pl.queue.nextOrder o) = (-1 : ℤ) := by
    rcases hnext with heq | heq
    · rw [heq, if_neg (by omega)]
    · rw [if_pos heq]
  have hunsigned : unsigned (-1) = 4294967295 := rfl
  have hpos : (pl.leaving (-1)).halted.queue.orderToPosition 4294967295 =
      .error (.order 4294967295) := if_neg (show ¬ 4294967295 < pl.queue.length by omega)
  have hfault : (pl.leaving (-1)).halted.reshuffle = .error (.order 4294967295) := by
    rw [reshuffle, show unsigned (pl.leaving (-1)).halted.current = 4294967295 from hunsigned,
      hpos, error_bind]
  rw [replaceCurrent_eq_stop h.queue hcur (by omega) hnext' (.inl (by decide)),
    stop_of_random (pl.leaving (-1)) hplay hrandom, hfault, error_bind]

end

end Leave

theorem leaveSong_current [Qsort] (hplay : pl.playing = true) (hcur : pl.current = o) :
    pl.leaveSong o prev = (pl.replaceCurrent o >>= fun pl => pure (pl, none)) :=
  if_pos ⟨hplay, hcur⟩

theorem leaveSong_other [Qsort] (h : ¬ (pl.playing = true ∧ pl.current = o)) : pl.leaveSong o prev =
      .ok ({ pl with current := if pl.current = o then -1 else pl.current }, prev) := by
  rw [leaveSong, if_neg h]
  split <;> rfl

/-! ### One song -/

def successorId (pl : Playlist σ) (o : ℕ) : Option ℕ :=
  let next := pl.queue.nextOrder o
  if 0 ≤ next ∧ next ≠ o then some (pl.queue.items (pl.queue.order next.toNat)).id else none

theorem successorId_of_next {n : ℕ} (hnext : pl.queue.nextOrder o = n) (hne : n ≠ o) :
    pl.successorId o = some (pl.queue.items (pl.queue.order n)).id := by
  rw [successorId, hnext, if_pos ⟨by omega, by omega⟩, Int.toNat_natCast]

theorem successorId_eq_none (h : pl.queue.nextOrder o = -1 ∨ pl.queue.nextOrder o = o) :
    pl.successorId o = none :=
  if_neg (by omega)

/-- What `playlist_delete_internal` does, when it deletes the song with order number `o`. -/
structure AfterDelete (pl : Playlist σ) (o : ℕ) (pl' : Playlist σ) (prev : Option σ) : Prop where
  editing : pl'.Editing prev
  items : pl'.queue.items = (pl.queue.deleteItems (pl.queue.order o)).items
  length : pl'.queue.length = pl.queue.length - 1
  settings : pl'.queue.settings = pl.queue.settings
  other : pl.current ≠ o → pl'.currentId = pl.currentId ∧ pl'.playing = pl.playing
  /-- the song that comes next replaces the deleted one, unless the order is shuffled before -/
  next : pl.playing = true → pl.current = o → (pl.queue.random = true → ¬ pl.Paused) →
    pl'.currentId = pl.successorId o ∧ (pl.successorId o = none → pl'.current = -1)
  /-- while playing, the song played is the same as before, or the one that came next -/
  playing : pl'.playing = true → pl.playing = true ∧
    pl'.queue = pl.queue.deleted (pl.queue.order o) o ∧
    ∃ c : ℕ, c < pl.queue.length ∧ c ≠ o ∧ pl'.current = (Queue.deleteTarget o c : ℕ) ∧
      (pl.current = c ∧ pl'.pc.views = pl.pc.views ∨
        pl.current = o ∧ pl.queue.nextOrder o = c ∧
          pl'.pc.views = fun k => pl.pc.views (k + 1))

def HasNext (pl : Playlist σ) (o : ℕ) : Prop :=
  0 ≤ pl.queue.nextOrder o ∧ pl.queue.nextOrder o ≠ o ∧
    (pl.Paused → o + 1 < pl.queue.length)

theorem removed_current_nonneg (h0 : 0 ≤ pl.current) (p order : ℕ) {songOrder : ℕ} :
    0 ≤ (pl.removed p order songOrder).current := by
  show 0 ≤ if (songOrder : ℤ) < pl.current then pl.current - 1 else pl.current
  split <;> omega

theorem Editing.deleteOther_succeeds [Qsort] [SongRef σ] (h : pl.Editing prev)
    (ho : o < pl.queue.length) (hother : ¬ (pl.playing = true ∧ pl.current = o)) :
    (pl.deleteInternal (pl.queue.order o) prev).Succeeds fun r => AfterDelete pl o r.1 r.2 ∧
      r.1.playing = pl.playing ∧ r.1.pc.views = pl.pc.views ∧
      (pl.current = o → r.1.current = -1) := by
  have hlt := h.current_lt
  have hge := h.current_ge
  have hplayed : pl.playing = true → pl.current ≠ o := fun hp hc => hother ⟨hp, hc⟩
  rw [deleteInternal, h.queue.positionToOrder_order ho, ok_bind, leaveSong_other hother,
    ok_bind]
  set pl₁ : Playlist σ := { pl with current := if pl.current = o then -1 else pl.current } with hpl₁
  have hcur : pl₁.current = if pl.current = o then -1 else pl.current := rfl
  have hcur_ne : pl₁.current ≠ o := by rw [hcur]; split <;> omega
  have hcur_ge : -1 ≤ pl₁.current := by rw [hcur]; split <;> omega
  have hcur_lt : pl₁.current < pl.queue.length := by rw [hcur]; split <;> omega
  have hcore₁ : pl₁.Core := ⟨h.queue, hcur_ge, hcur_lt, h.updates⟩
  refine (pl₁.removeSong_succeeds h.queue ho o).bind fun pl' hpl' => ?_
  have hcore : (pl₁.removed (pl.queue.order o) o o).Core := by
    refine hcore₁.removed ho fun hle => ?_
    show pl₁.current + 1 < pl.queue.length
    omega
  have hedit : (pl₁.removed (pl.queue.order o) o o).Editing prev := by
    refine h.of_core hcore rfl rfl fun hp => removed_current_nonneg ?_ _ _
    rw [hcur, if_neg (hplayed hp)]
    exact h.playing hp
  refine .ok ⟨⟨hpl'.editing hedit, ?_, ?_, ?_, fun hne => ?_,
    fun hp hc => absurd ⟨hp, hc⟩ hother, fun hp => ?_⟩, hpl'.playing_eq, hpl'.views, fun hc => ?_⟩
  · rw [hpl'.queue_eq]
    rfl
  · rw [hpl'.queue_eq]
    exact deleted_length pl.queue _ o
  · rw [hpl'.queue_eq]
    exact deleted_settings pl.queue _ o
  · have hsame : pl₁ = pl := by rw [hpl₁, if_neg hne]
    refine ⟨?_, hpl'.playing_eq⟩
    rw [hpl'.currentId_eq]
    exact (hcore₁.removed_currentId ho hcur_ne).trans (congrArg Playlist.currentId hsame)
  · have hp : pl.playing = true := hpl'.playing_eq ▸ hp
    obtain ⟨c, hc⟩ := Int.eq_ofNat_of_zero_le (h.playing hp)
    refine ⟨hp, hpl'.queue_eq, c, by omega, fun hco => hplayed hp (by rw [hc, hco]), ?_,
      .inl ⟨hc, hpl'.views⟩⟩
    rw [hpl'.current_eq]
    exact removed_current (hcur.trans ((if_neg (hplayed hp)).trans hc)) _ _
  · have hneg : pl₁.current = -1 := hcur.trans (if_pos hc)
    rw [hpl'.current_eq]
    show (if (o : ℤ) < pl₁.current then pl₁.current - 1 else pl₁.current) = -1
    rw [hneg, if_neg (by omega)]

theorem Editing.of_stopped (h : pl.Core) (hplay : pl.playing = false) (hqueued : pl.queued = -1) :
    pl.Editing none :=
  ⟨h, fun hp => absurd (hplay.symm.trans hp) (by decide), hqueued.ge, fun _ => hqueued,
    iff_of_true (by omega) rfl⟩

private theorem Editing.stoppedDelete_succeeds [SongRef σ] (h : pl.Editing prev)
    (ho : o < pl.queue.length)
    (hcur : pl.current = o) {pl₁ : Playlist σ} (h₁ : pl₁.Core) (hplay : pl₁.playing = false)
    (hqueued : pl₁.queued = -1) (hsongs : pl.queue.SameSongs pl₁.queue)
    (hlast : pl₁.current ≤ o → pl₁.current + 1 < pl.queue.length)
    (hnext : (pl.queue.random = true → ¬ pl.Paused) → pl₁.queue = pl.queue ∧ pl₁.current ≠ o ∧
      pl₁.currentId = pl.successorId o ∧ (pl.successorId o = none → pl₁.current = -1)) :
    (pl₁.removeSong (pl.queue.order o) o >>= fun pl =>
      (pure (pl, none) : Except Fault (Playlist σ × Option σ))).Succeeds fun r =>
        AfterDelete pl o r.1 r.2 := by
  have hlen : pl₁.queue.length = pl.queue.length := by rw [hsongs]; rfl
  have hitems : pl₁.queue.items = pl.queue.items := by rw [hsongs]; rfl
  obtain ⟨o', ho', hord⟩ := h₁.queue.exists_order (hlen.symm ▸ h.queue.order_lt ho)
  rw [← hord]
  refine (removeSong_succeeds _ h₁.queue ho' o).bind fun pl' hpl' => ?_
  have hcore := h₁.removed ho' (hlen.symm ▸ hlast)
  have hedit : (pl₁.removed (pl₁.queue.order o') o' o).Editing none :=
    .of_stopped hcore hplay hqueued
  refine .ok ⟨hpl'.editing hedit, ?_, ?_, ?_, fun hne => absurd hcur hne,
    fun _ _ hshuffled => ?_, fun hp => ?_⟩
  · rw [hpl'.queue_eq]
    show (pl₁.queue.deleteItems (pl₁.queue.order o')).items = _
    funext x
    rw [deleteItems_items, deleteItems_items, hitems, hlen, hord,
      show pl₁.queue.version = pl.queue.version by rw [hsongs]; rfl]
  · rw [hpl'.queue_eq, ← hlen]
    exact deleted_length pl₁.queue _ o'
  · rw [hpl'.queue_eq]
    refine (deleted_settings pl₁.queue _ o').trans ?_
    rw [hsongs]
    rfl
  · obtain ⟨hqueue, hne, hid, hnone⟩ := hnext hshuffled
    -- the order is the old one, so the caller's order number is right
    obtain rfl : o' = o := by
      rw [hqueue] at hord ho'
      exact h.queue.order_inj ho' ho hord
    refine ⟨hpl'.currentId_eq.trans ((h₁.removed_currentId ho' hne).trans hid), fun hs => ?_⟩
    rw [hpl'.current_eq]
    show (if (o' : ℤ) < pl₁.current then pl₁.current - 1 else pl₁.current) = -1
    rw [hnone hs, if_neg (by omega)]
  · have hp : pl₁.playing = true := hpl'.playing_eq ▸ hp
    exact absurd (hplay.symm.trans hp) (by decide)

private theorem Editing.playingDelete_succeeds [SongRef σ] (h : pl.Editing prev)
    (ho : o < pl.queue.length)
    (hcur : pl.current = o) (hplay : pl.playing = true) {n : ℕ} (hn : n < pl.queue.length)
    (hne : n ≠ o) (hnext : pl.queue.nextOrder o = n) {pc : PlayerControl σ}
    (hviews : pc.views = fun k => pl.pc.views (k + 1)) :
    (removeSong { pl with playing := true, queued := -1, current := n, pc := pc }
      (pl.queue.order o) o >>= fun pl =>
      (pure (pl, none) : Except Fault (Playlist σ × Option σ))).Succeeds fun r =>
        AfterDelete pl o r.1 r.2 := by
  set pl₁ : Playlist σ := { pl with playing := true, queued := -1, current := n, pc := pc }
  have h₁ : pl₁.Core :=
    ⟨h.queue, show -1 ≤ (n : ℤ) by omega, Int.ofNat_lt.mpr hn, h.updates⟩
  refine (pl₁.removeSong_succeeds h.queue ho o).bind fun pl' hpl' => ?_
  have hcore : (pl₁.removed (pl.queue.order o) o o).Core := by
    refine h₁.removed ho fun hle => ?_
    have hle : (n : ℤ) ≤ o := hle
    show (n : ℤ) + 1 < pl.queue.length
    omega
  have hedit : (pl₁.removed (pl.queue.order o) o o).Editing none :=
    ⟨hcore, fun _ => removed_current_nonneg (Int.natCast_nonneg n) _ _, le_rfl, fun _ => rfl,
      iff_of_true (show (-1 : ℤ) < 0 by decide) rfl⟩
  have hid : pl₁.currentId = pl.successorId o := by
    rw [successorId_of_next hnext hne]
    exact currentId_natCast rfl hn
  refine .ok ⟨hpl'.editing hedit, ?_, ?_, ?_, fun hc => absurd hcur hc,
    fun _ _ _ => ⟨?_, fun hs => ?_⟩,
    fun _ => ⟨hplay, hpl'.queue_eq, n, hn, hne, ?_, .inr ⟨hcur, hnext, ?_⟩⟩⟩
  · rw [hpl'.queue_eq]
    rfl
  · rw [hpl'.queue_eq]
    exact deleted_length pl.queue _ o
  · rw [hpl'.queue_eq]
    exact deleted_settings pl.queue _ o
  · rw [hpl'.currentId_eq, ← hid]
    exact h₁.removed_currentId ho (show (n : ℤ) ≠ o by omega)
  · rw [successorId_of_next hnext hne] at hs
    cases hs
  · rw [hpl'.current_eq]
    exact removed_current rfl _ _
  · rw [hpl'.views]
    exact hviews

theorem Core.stoppedAt (h : pl.Core) {n : ℤ} (h₁ : -1 ≤ n) (h₂ : n < pl.queue.length)
    (pc : PlayerControl σ) :
    Core { pl with playing := false, queued := -1, current := n, pc := pc } :=
  ⟨h.queue, h₁, h₂, h.updates⟩

section

variable [Qsort] [SongRef σ] (h : pl.Editing prev) (ho : o < pl.queue.length)
include h ho

section

variable (hcur : pl.current = o) (hplay : pl.playing = true)
include hcur hplay

theorem Editing.deleteLast_succeeds (hrandom : pl.queue.random = false)
    (hlast : pl.queue.nextOrder o = -1 ∨ pl.queue.nextOrder o = o) :
    (pl.deleteInternal (pl.queue.order o) prev).Succeeds fun r => AfterDelete pl o r.1 r.2 := by
  rw [deleteInternal, h.queue.positionToOrder_order ho, ok_bind,
    leaveSong_current hplay hcur, bind_assoc]
  have hneg : (if pl.queue.nextOrder o = o then -1 else pl.queue.nextOrder o) = (-1 : ℤ) := by
    split
    · rfl
    · exact hlast.resolve_right ‹_›
  refine (replaceCurrent_normal h.queue hcur ho hplay hrandom _ hneg (.inl (by decide))).bind ?_
  intro pl₁ hpl₁
  rw [hpl₁]
  refine h.stoppedDelete_succeeds ho hcur (h.toCore.stoppedAt le_rfl (by omega) _) rfl rfl .refl
    (fun _ => ?_) fun _ => ⟨rfl, show (-1 : ℤ) ≠ o by omega, ?_, fun _ => rfl⟩
  · show (-1 : ℤ) + 1 < pl.queue.length
    omega
  · rw [successorId_eq_none hlast]
    exact currentId_of_neg (show (-1 : ℤ) < 0 by decide)

theorem Editing.deletePaused_succeeds (hpause : pl.Paused)
    (hn : n < pl.queue.length) (hn' : pl.queue.nextOrder o = (n : ℕ)) (hne : n ≠ o)
    (hnext : pl.queue.random = true → pl.HasNext o) :
    (pl.deleteInternal (pl.queue.order o) prev).Succeeds fun r => AfterDelete pl o r.1 r.2 := by
  rw [deleteInternal, h.queue.positionToOrder_order ho, ok_bind,
    leaveSong_current hplay hcur, bind_assoc]
  cases hrandom : pl.queue.random with
  | false =>
    refine (replaceCurrent_normal h.queue hcur ho hplay hrandom n ?_
      (.inr hpause)).bind fun pl₁ hpl₁ => ?_
    · rw [hn', if_neg (by omega)]
    · rw [hpl₁]
      refine h.stoppedDelete_succeeds ho hcur (h.toCore.stoppedAt (by omega) (by omega) _) rfl rfl
        .refl (fun hle => ?_) fun _ => ⟨rfl, show (n : ℤ) ≠ o by omega, ?_, fun hs => ?_⟩
      · have hle : (n : ℤ) ≤ o := hle
        show (n : ℤ) + 1 < pl.queue.length
        omega
      · rw [successorId_of_next hn' hne]
        exact currentId_natCast rfl hn
      · rw [successorId_of_next hn' hne] at hs
        cases hs
  | true =>
    have hlast := (hnext hrandom).2.2 hpause
    refine (h.toCore.replaceCurrent_random hcur hplay hrandom hn' hn hne hpause).bind ?_
    intro pl₁ hpl₁
    have hc₁ := hpl₁.core (h.toCore.stoppedAt (by omega) (by omega) _) hrandom
    refine h.stoppedDelete_succeeds ho hcur hc₁ ?_ ?_ hpl₁.songs (fun hle => by omega)
      fun hshuffled => absurd hpause (hshuffled hrandom)
    · rw [hpl₁.frame]
    · rw [hpl₁.frame]

theorem Editing.deleteCurrent_succeeds (hnext : pl.queue.random = true → pl.HasNext o) :
    (pl.deleteInternal (pl.queue.order o) prev).Succeeds fun r => AfterDelete pl o r.1 r.2 := by
  by_cases hlast : pl.queue.nextOrder o = -1 ∨ pl.queue.nextOrder o = o
  · -- no next song: only normal mode gets here
    refine h.deleteLast_succeeds ho hcur hplay (Bool.eq_false_iff.mpr fun hrandom => ?_) hlast
    obtain ⟨h₁, h₂, -⟩ := hnext hrandom
    omega
  · rw [not_or] at hlast
    obtain ⟨n, hn, hn'⟩ := (nextOrder_cases pl.queue ho).resolve_left hlast.1
    have hne : n ≠ o := fun heq => hlast.2 (heq ▸ hn')
    by_cases hpause : pl.Paused
    · exact h.deletePaused_succeeds ho hcur hplay hpause hn hn' hne hnext
    · rw [deleteInternal, h.queue.positionToOrder_order ho, ok_bind,
        leaveSong_current hplay hcur, bind_assoc]
      refine (replaceCurrent_playing h.queue hcur ho hn' hn hne hpause).bind ?_
      rintro pl₁ ⟨hpl₁, hviews⟩
      rw [hpl₁]
      exact h.playingDelete_succeeds ho hcur hplay hn hne hn' hviews

end

end

/-! ### Sets of songs -/

def Replaceable (pl : Playlist σ) (D : ℕ → Prop) (looks : ℕ) : Prop :=
  ¬ (pl.queue.single = true ∧ pl.queue.repeat_ = true ∧ pl.queue.consume = false) ∧
  ((∃ o < pl.queue.length, pl.current < (o : ℕ) ∧ ¬ D (pl.queue.order o)) ∨
    pl.queue.repeat_ = true ∧ (∃ o < pl.queue.length, ¬ D (pl.queue.order o)) ∧
      ∀ k < looks, (pl.pc.views k).state ≠ .pause)

def MayDelete (pl : Playlist σ) (D : ℕ → Prop) (looks : ℕ) : Prop :=
  pl.playing = true → pl.queue.random = true → ∀ p ∈ pl.designated, D p → pl.Replaceable D looks

theorem Replaceable.hasNext {D : ℕ → Prop} {looks : ℕ} (h : pl.Replaceable D (looks + 1))
    (hcur : pl.current = o) (hD : D (pl.queue.order o)) : pl.HasNext o := by
  obtain ⟨hmode, hrest⟩ := h
  unfold HasNext
  rcases hrest with ⟨o', ho', hlt, -⟩ | ⟨hrep, ⟨o', ho', hD'⟩, hviews⟩
  · have hlt' : o + 1 < pl.queue.length := by omega
    rw [nextOrder_of_lt hmode hlt']
    exact ⟨by omega, by omega, fun _ => hlt'⟩
  · have hne : o' ≠ o := fun heq => hD' (heq ▸ hD)
    have hpause : ¬ pl.Paused := hviews 0 (Nat.succ_pos _)
    rcases lt_or_ge (o + 1) pl.queue.length with hlt' | hge
    · rw [nextOrder_of_lt hmode hlt']
      exact ⟨by omega, by omega, fun hp => absurd hp hpause⟩
    · rw [nextOrder_last hmode hge hrep (by omega)]
      exact ⟨le_rfl, by omega, fun hp => absurd hp hpause⟩

theorem AfterDelete.mayDelete (h : AfterDelete pl o pl' prev) (hq : pl.queue.Inv)
    (ho : o < pl.queue.length) {D : ℕ → Prop} {looks : ℕ} (hD : D (pl.queue.order o))
    (hmax : ∀ x, D x → x ≤ pl.queue.order o) (hmay : pl.MayDelete D (looks + 1)) :
    pl'.MayDelete (fun x => D x ∧ x ≠ pl.queue.order o) looks := by
  intro hplay' hrandom' p hp hDp
  obtain ⟨hplay, hqueue, c, hc, hco, hcur', hviews⟩ := h.playing hplay'
  have hrandom : pl.queue.random = true := (random_eq h.settings).symm.trans hrandom'
  have hlen := h.length
  -- the order numbers other than `o`, before and after
  have hord : ∀ x < pl.queue.length, x ≠ o → pl'.queue.order (Queue.deleteTarget o x) =
      Queue.deleteTarget (pl.queue.order o) (pl.queue.order x) := fun x hx hxo => by
    rw [hqueue, deleted_order_deleteTarget pl.queue hx ho hxo]
  have hne : ∀ x < pl.queue.length, x ≠ o → pl.queue.order x ≠ pl.queue.order o :=
    fun x hx hxo heq => hxo (hq.order_inj hx ho heq)
  have hmem : ∀ x < pl.queue.length, x ≠ o →
      ((D (pl'.queue.order (Queue.deleteTarget o x)) ∧
        pl'.queue.order (Queue.deleteTarget o x) ≠ pl.queue.order o) ↔ D (pl.queue.order x)) :=
    fun x hx hxo => by rw [hord x hx hxo, mem_deleteTarget_iff hmax (hne x hx hxo)]
  have hlt' : ∀ x < pl.queue.length, x ≠ o → Queue.deleteTarget o x < pl'.queue.length :=
    fun x hx hxo => hlen.symm ▸ deleteTarget_lt hx ho hxo
  have hDc : D (pl.queue.order c) := by
    rw [designated_natCast hcur' (hlt' c hc hco)] at hp
    cases hp
    exact (hmem c hc hco).mp hDp
  obtain ⟨hmode, hrest⟩ : pl.Replaceable D (looks + 1) := by
    rcases hviews with ⟨hcur, -⟩ | ⟨hcur, -, -⟩
    · exact hmay hplay hrandom _ (designated_natCast hcur hc) hDc
    · exact hmay hplay hrandom _ (designated_natCast hcur ho) hD
  have hrepeat : pl'.queue.repeat_ = pl.queue.repeat_ := congrArg Queue.Settings.repeat_ h.settings
  refine ⟨by rwa [mode_iff h.settings], ?_⟩
  rcases hrest with ⟨x, hx, hltx, hDx⟩ | ⟨hrep, ⟨x, hx, hDx⟩, hpause⟩
  · have hxo : x ≠ o := fun heq => hDx (heq ▸ hD)
    have hcx : c ≠ x := fun heq => hDx (heq ▸ hDc)
    have hltc : c < x := by
      rcases hviews with ⟨hcur, -⟩ | ⟨hcur, hnext, -⟩
      · omega
      · -- the next song is the following one, since there is one
        rw [nextOrder_of_lt hmode (by omega)] at hnext
        omega
    refine .inl ⟨_, hlt' x hx hxo, ?_, fun hmem' => hDx ((hmem x hx hxo).mp hmem')⟩
    rw [hcur']
    exact Int.ofNat_lt.mpr ((deleteTarget_lt_iff hco hxo).mpr hltc)
  · have hxo : x ≠ o := fun heq => hDx (heq ▸ hD)
    refine .inr ⟨by rwa [hrepeat], ⟨_, hlt' x hx hxo, fun hmem' => hDx ((hmem x hx hxo).mp hmem')⟩,
      fun k hk => ?_⟩
    rcases hviews with ⟨-, hv⟩ | ⟨-, -, hv⟩
    · rw [hv]
      exact hpause k (by omega)
    · rw [hv]
      exact hpause (k + 1) (by omega)

/-- **Deleting one song** of a set that may be deleted, the last one first. -/
theorem Editing.deleteInternal_succeeds [Qsort] [SongRef σ] (h : pl.Editing prev)
    (ho : o < pl.queue.length) {D : ℕ → Prop} {looks : ℕ} (hD : D (pl.queue.order o))
    (hmax : ∀ x, D x → x ≤ pl.queue.order o) (hmay : pl.MayDelete D (looks + 1)) :
    (pl.deleteInternal (pl.queue.order o) prev).Succeeds fun r => AfterDelete pl o r.1 r.2 ∧
      r.1.MayDelete (fun x => D x ∧ x ≠ pl.queue.order o) looks := by
  have hafter : (pl.deleteInternal (pl.queue.order o) prev).Succeeds fun r =>
      AfterDelete pl o r.1 r.2 := by
    by_cases hcur : pl.playing = true ∧ pl.current = o
    · refine h.deleteCurrent_succeeds ho hcur.2 hcur.1 fun hrandom => ?_
      exact (hmay hcur.1 hrandom _ (designated_natCast hcur.2 ho) hD).hasNext hcur.2 hD
    · exact (h.deleteOther_succeeds ho hcur).mono fun r hr => hr.1
  exact hafter.mono fun r hr => ⟨hr, hr.mayDelete h.queue ho hD hmax hmay⟩

/-! ### Deleting songs -/

theorem MayDelete.congr {D D' : ℕ → Prop} {looks looks' : ℕ} (h : pl.MayDelete D looks)
    (hD : ∀ x, D x ↔ D' x) (hle : looks' ≤ looks) : pl.MayDelete D' looks' := by
  have hDD : D = D' := funext fun x => propext (hD x)
  subst hDD
  intro hplay hrandom p hp hDp
  obtain ⟨hmode, hrest⟩ := h hplay hrandom p hp hDp
  refine ⟨hmode, hrest.imp_right ?_⟩
  rintro ⟨hrep, hex, hviews⟩
  exact ⟨hrep, hex, fun k hk => hviews k (hk.trans_le hle)⟩

theorem mayDelete_of_outside {D : ℕ → Prop} (h : ∀ p ∈ pl.designated, ¬ D p) {looks : ℕ} :
    pl.MayDelete D looks :=
  fun _ _ p hp hD => absurd hD (h p hp)

theorem mayDelete_of_ne (h : pl.designated ≠ some p) {looks : ℕ} :
    pl.MayDelete (fun x => x = p) looks := by
  refine mayDelete_of_outside ?_
  rintro x hx rfl
  exact h hx

theorem Finished.mayDelete (h : Finished pl pl') (hcore : pl.Core) {D : ℕ → Prop} {looks : ℕ}
    (hmay : pl.MayDelete D looks) : pl'.MayDelete D looks := by
  intro hplay hrandom p hp hDp
  have hset : pl'.queue.settings = pl.queue.settings := by
    rw [h.keeps.songs]
    exact pl.queue.incrementVersion_settings
  have hlen : pl'.queue.length = pl.queue.length := by
    rw [h.keeps.length_eq]
    exact pl.queue.incrementVersion_length
  have hdes : pl'.designated = pl.designated := by
    rw [h.keeps.designated, incrementVersion_designated]
  have hplay' : pl.playing = true := h.playing.symm.trans hplay
  obtain ⟨hmode, hrest⟩ := hmay hplay' ((random_eq hset).symm.trans hrandom) p (hdes ▸ hp) hDp
  have hrepeat : pl'.queue.repeat_ = pl.queue.repeat_ := congrArg Queue.Settings.repeat_ hset
  refine ⟨by rwa [mode_iff hset], ?_⟩
  have h0 : 0 ≤ pl.current := by
    by_contra hneg
    rw [hdes, designated_of_neg (by omega)] at hp
    cases hp
  rcases hrest with ⟨x, hx, hlt, hDx⟩ | ⟨hrep, ⟨x, hx, hDx⟩, hviews⟩
  · obtain ⟨c, hc⟩ := Int.eq_ofNat_of_zero_le h0
    have hcast : unsigned pl.current = c := by
      rw [hcore.unsigned_current h0, hc, Int.toNat_natCast]
    have hnext : pl.incrementVersion.nextOrder = (c : ℤ) + 1 := by
      have heq : pl.incrementVersion.nextOrder =
          pl.queue.incrementVersion.nextOrder (unsigned pl.current) := if_pos h0
      rw [heq, nextOrder_eq pl.queue.incrementVersion_settings
        pl.queue.incrementVersion_length, hcast, nextOrder_of_lt hmode (by omega)]
    obtain ⟨hqueue, hcur⟩ := h.unshuffled (by omega)
    refine .inl ⟨x, hlen.symm ▸ hx, hcur.symm ▸ hlt, ?_⟩
    rwa [hqueue, incrementVersion_order]
  · obtain ⟨x', hx', heq⟩ := h.inv.queue.exists_order (hlen.symm ▸ hcore.queue.order_lt hx)
    refine .inr ⟨hrepeat.trans hrep, ⟨x', hx', by rwa [heq]⟩, fun k hk => ?_⟩
    rw [h.keeps.views]
    exact hviews k hk

/-- What `playlist_delete` does to a position of the queue. -/
structure Deleted (pl : Playlist σ) (p : ℕ) (pl' : Playlist σ) : Prop where
  inv : pl'.Inv
  length : pl'.queue.length = pl.queue.length - 1
  settings : pl'.queue.settings = pl.queue.settings
  items : ∀ x, (pl'.queue.items x).stamp 0 = ((pl.queue.deleteItems p).items x).stamp 0
  other : pl.designated ≠ some p → pl'.currentId = pl.currentId ∧ pl'.playing = pl.playing
  next : pl.playing = true → pl.designated = some p → (pl.queue.random = true → ¬ pl.Paused) →
    pl'.currentId = pl.successorId pl.current.toNat ∧
      (pl.successorId pl.current.toNat = none → pl'.current = -1)

theorem Finished.deleted {pl₁ : Playlist σ} (hcore : pl.Core) (ho : o < pl.queue.length)
    (h₁ : AfterDelete pl o pl₁ prev) (h : Finished pl₁ pl') :
    Deleted pl (pl.queue.order o) pl' where
  inv := h.inv
  length := by
    rw [h.keeps.length_eq, ← h₁.length]
    exact pl₁.queue.incrementVersion_length
  settings := by
    rw [h.keeps.songs, ← h₁.settings]
    exact pl₁.queue.incrementVersion_settings
  items x := by
    obtain ⟨v, hv⟩ := pl₁.queue.incrementVersion_items x
    rw [h.keeps.items_eq, ← h₁.items]
    show (pl₁.queue.incrementVersion.items x).stamp 0 = _
    rw [hv]
    rfl
  other hne := by
    have hcur : pl.current ≠ o := fun heq => hne (designated_natCast heq ho)
    obtain ⟨hid, hplay⟩ := h₁.other hcur
    exact ⟨h.currentId_eq.trans hid, h.playing.trans hplay⟩
  next hplay hdes hshuffled := by
    have hcur : pl.current = o := by
      unfold designated at hdes
      split at hdes
      · next h0 =>
        have := hcore.queue.order_inj (by omega) ho (Option.some.inj hdes)
        omega
      · cases hdes
    have hnat : pl.current.toNat = o := by omega
    obtain ⟨hid, hnone⟩ := h₁.next hplay hcur hshuffled
    rw [hnat]
    refine ⟨h.currentId_eq.trans hid, fun hs => ?_⟩
    -- nothing designated before the end of the edit, so nothing after it
    have hdes' : pl'.designated = none := by
      rw [h.keeps.designated, incrementVersion_designated, designated_of_neg (by
        rw [hnone hs]
        decide)]
    have hge := h.inv.current_ge
    by_contra hne
    rw [h.inv.designated_eq (by omega)] at hdes'
    cases hdes'

section

variable [Qsort] [DecidableEq σ] [SongRef σ] (h : pl.Inv)
include h

/-- **Deleting a song** of a set that may be deleted, the last one first. -/
theorem Inv.delete_succeeds (hp : p < pl.queue.length) {D : ℕ → Prop} {looks : ℕ}
    (hD : D p) (hmax : ∀ x, D x → x ≤ p) (hmay : pl.MayDelete D (looks + 1)) :
    (pl.delete p).Succeeds fun r => Deleted pl p r.1 ∧
      r.1.MayDelete (fun x => D x ∧ x ≠ p) looks := by
  obtain ⟨o, ho, rfl⟩ := h.queue.exists_order hp
  rw [delete, if_neg hp.not_ge]
  refine h.getQueuedSong_succeeds.bind fun prev hprev => ?_
  refine (hprev.deleteInternal_succeeds ho hD hmax hmay).bind ?_
  rintro ⟨pl₁, prev₁⟩ ⟨h₁, hmay₁⟩
  refine h₁.editing.finishEdit_succeeds.mono ?_
  rintro ⟨pl', status⟩ ⟨h₂, -⟩
  exact ⟨h₂.deleted h.toCore ho h₁, h₂.mayDelete h₁.editing.toCore hmay₁⟩

theorem Inv.delete_inv (hmay : pl.MayDelete (fun x => x = p) 1) :
    (pl.delete p).Succeeds fun r => r.1.Inv ∧
      (pl.designated ≠ some p → r.1.currentId = pl.currentId) := by
  rcases lt_or_ge p pl.queue.length with hp | hp
  · exact (h.delete_succeeds (D := fun x => x = p) hp rfl (fun _ hx => hx.le) hmay).mono
      fun r hr => ⟨hr.1.inv, fun hne => (hr.1.other hne).1⟩
  · rw [delete, if_pos hp]
    exact .ok ⟨h, fun _ => rfl⟩

theorem Inv.deleteId_succeeds {id : ℕ}
    (hmay : pl.MayDelete (fun x => (x : ℤ) = pl.queue.positionOfId id) 1) :
    (pl.deleteId id).Succeeds fun r => r.1.Inv := by
  refine .ite (fun _ => .ok h) fun hid => ?_
  exact (h.delete_inv (hmay.congr (fun x => by omega) le_rfl)).mono fun r hr => hr.1

end

/-! ### Deleting a range -/

theorem lt_of_mem_designated (hq : pl.queue.Inv) {x : ℕ} (hx : x ∈ pl.designated) :
    x < pl.queue.length := by
  unfold designated at hx
  split at hx
  · obtain rfl := Option.some.inj hx
    exact hq.order_lt (by omega)
  · cases hx

theorem designated_of_currentId (hq : pl.queue.Inv) {x : ℕ} (hx : x < pl.queue.length)
    (hid : pl.currentId = some (pl.queue.items x).id) : pl.designated = some x := by
  obtain ⟨y, hy, hyx⟩ := Option.map_eq_some_iff.mp hid
  rw [hy, hq.indexed.injOn (lt_of_mem_designated hq hy) hx hyx]

theorem AfterDelete.designated_eq (h : AfterDelete pl o pl' prev) (hcore : pl.Core)
    (ho : o < pl.queue.length) {c : ℕ} (hc : pl.current = c) (hco : c ≠ o) :
    pl'.designated = some (Queue.deleteTarget (pl.queue.order o) (pl.queue.order c)) := by
  have hlt := hcore.current_lt
  have hcn : c < pl.queue.length := by omega
  have hne : pl.queue.order c ≠ pl.queue.order o := fun heq =>
    hco (hcore.queue.order_inj hcn ho heq)
  refine designated_of_currentId h.editing.queue ?_ ?_
  · rw [h.length]
    exact deleteTarget_lt (hcore.queue.order_lt hcn) (hcore.queue.order_lt ho) hne
  · rw [(h.other (by omega)).1, currentId_natCast hc hcn, h.items,
      pl.queue.deleteItems_id (hcore.queue.order_lt hcn) hne]

theorem Editing.deleteDown_succeeds [Qsort] [SongRef σ] (h : pl.Editing prev) (start n : ℕ)
    (hlen : start + n ≤ pl.queue.length)
    (hmay : pl.MayDelete (fun x => start ≤ x ∧ x < start + n) n) :
    (deleteDown start n pl prev).Succeeds fun r => r.1.Editing r.2 ∧
      (pl.playing = true → (∀ x ∈ pl.designated, ¬ (start ≤ x ∧ x < start + n)) →
        r.1.currentId = pl.currentId) := by
  induction n generalizing pl prev with
  | zero => exact .ok ⟨h, fun _ _ => rfl⟩
  | succ n ih =>
    obtain ⟨o, ho, hord⟩ := h.queue.exists_order (show start + n < pl.queue.length by omega)
    rw [deleteDown, ← hord]
    refine (h.deleteInternal_succeeds ho (by omega) (fun x hx => by omega) hmay).bind ?_
    rintro ⟨pl₁, prev₁⟩ ⟨h₁, hmay₁⟩
    have hlen₁ := h₁.length
    refine (ih h₁.editing (by dsimp only at hlen₁ ⊢; omega)
      (hmay₁.congr (fun x => by omega) le_rfl)).mono fun r hr => ⟨hr.1, fun hplay hout => ?_⟩
    obtain ⟨c, hc⟩ := Int.eq_ofNat_of_zero_le (h.playing hplay)
    have hlt := h.current_lt
    have hcn : c < pl.queue.length := by omega
    have hx := hout _ (designated_natCast hc hcn)
    have hne : pl.queue.order c ≠ pl.queue.order o := by omega
    have hco : c ≠ o := fun heq => hne (by rw [heq])
    obtain ⟨hid, hplay₁⟩ := h₁.other (by omega)
    refine (hr.2 (hplay₁.trans hplay) fun x hx' => ?_).trans hid
    rw [h₁.designated_eq h.toCore ho hc hco] at hx'
    cases hx'
    unfold Queue.deleteTarget
    split <;> omega

/-- **Deleting a range.** -/
theorem Inv.deleteRange_succeeds [Qsort] [DecidableEq σ] [SongRef σ] (h : pl.Inv) {start stop : ℕ}
    (hmay : pl.MayDelete (fun x => start ≤ x ∧ x < min stop pl.queue.length)
      (min stop pl.queue.length - start)) :
    (pl.deleteRange start stop).Succeeds fun r => r.1.Inv ∧
      (pl.playing = true → (∀ x ∈ pl.designated, ¬ (start ≤ x ∧ x < stop)) →
        r.1.currentId = pl.currentId) := by
  refine .branch (.ok ⟨h, fun _ _ => rfl⟩) ?_
  refine .ite (fun _ => .ok ⟨h, fun _ _ => rfl⟩) fun hlt => ?_
  refine h.getQueuedSong_succeeds.bind fun prev hprev => ?_
  refine (hprev.deleteDown_succeeds start (min stop pl.queue.length - start)
    (by omega) (hmay.congr (fun x => by omega) le_rfl)).bind ?_
  rintro ⟨pl₁, prev₁⟩ ⟨h₁, hid⟩
  refine h₁.finishEdit_succeeds.mono fun r hr => ⟨hr.1.inv, fun hplay hout => ?_⟩
  rw [hr.1.currentId_eq]
  refine hid hplay fun x hx hin => hout x hx ⟨hin.1, ?_⟩
  omega

/-! ### Deleting a song wherever it is -/

theorem Deleted.song_below {n : ℕ} (h : Deleted pl n pl') (song : σ) (x : ℕ) :
    (x < n + 1 ∧ (pl.queue.items x).song = song) ∧ x ≠ n ↔
      x < n ∧ (pl'.queue.items x).song = song := by
  have hsong : x < n → (pl'.queue.items x).song = (pl.queue.items x).song := fun hx => by
    have := (QueueItem.mk.inj (h.items x)).1
    rwa [deleteItems_items, if_neg (by omega)] at this
  constructor
  · rintro ⟨⟨h₁, h₂⟩, h₃⟩
    have hx : x < n := by omega
    exact ⟨hx, (hsong hx).trans h₂⟩
  · rintro ⟨hx, h₂⟩
    exact ⟨⟨by omega, (hsong hx).symm.trans h₂⟩, by omega⟩

theorem lt_succ_and_iff {P : ℕ → Prop} {n : ℕ} (hn : ¬ P n) (x : ℕ) :
    x < n + 1 ∧ P x ↔ x < n ∧ P x := by
  constructor
  · rintro ⟨h₁, h₂⟩
    refine ⟨lt_of_le_of_ne (by omega) ?_, h₂⟩
    rintro rfl
    exact hn h₂
  · rintro ⟨h₁, h₂⟩
    exact ⟨by omega, h₂⟩

theorem Inv.deleteSongBelow_succeeds [Qsort] [DecidableEq σ] [SongRef σ] (h : pl.Inv) {song : σ}
    {n : ℕ} (hlen : n ≤ pl.queue.length)
    (hmay : pl.MayDelete (fun x => x < n ∧ (pl.queue.items x).song = song) n) :
    (deleteSongBelow song n pl).Succeeds Inv := by
  induction n generalizing pl with
  | zero => exact .ok h
  | succ n ih =>
    rw [deleteSongBelow, get_eq (by omega), ok_bind]
    refine .ite (fun heq => ?_) fun hne => ?_
    · refine (h.delete_succeeds (by omega)
        ⟨by omega, heq⟩
        (fun x hx => by omega) hmay).bind ?_
      rintro ⟨pl₁, status⟩ ⟨h₁, hmay₁⟩
      have hlen₁ := h₁.length
      exact ih h₁.inv (by dsimp only at hlen₁ ⊢; omega) (hmay₁.congr (h₁.song_below song) le_rfl)
    · exact ih h (by omega) (hmay.congr (lt_succ_and_iff hne) (Nat.le_succ n))

theorem Inv.deleteSong_succeeds [Qsort] [DecidableEq σ] [SongRef σ] (h : pl.Inv) {song : σ}
    (hmay : pl.MayDelete (fun x => x < pl.queue.length ∧ (pl.queue.items x).song = song)
      pl.queue.length) : (pl.deleteSong song).Succeeds Inv :=
  (h.deleteSongBelow_succeeds le_rfl hmay).bind fun _ hpl' =>
    .ok (hpl'.send _)

end Playlist

end Mpd
