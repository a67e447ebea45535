import Mpd.Queue.PriorityOrder
import Mpd.Playlist.Run

/-!
# The playlist: songs in the order of their priorities

While a playlist plays in random mode, the songs behind the current one are meant to come by
descending priority (`pl.InOrder`). Shuffling the queue and changing priorities take care of it,
and exchanging or moving songs does not touch the order in which they are played. The other
operations do not look at priorities: a new song is put anywhere among the remaining ones, the
song to be played changes places with the current one, and `current` jumps to another order
number. `op.KeepsPriorities pl` says when an operation leaves the songs in order nevertheless;
they are in order in every run whose operations all meet it.
-/

namespace Mpd

open Nat Queue Except Arrangement

namespace Playlist

variable {σ : Type} {pl pl' : Playlist σ} {prev : Option σ}

def InOrder (pl : Playlist σ) : Prop :=
  pl.playing = true → pl.queue.random = true → pl.queue.Ordered (pl.current.toNat + 1)

theorem inOrder_of_stopped (h : pl.playing = false) : pl.InOrder :=
  fun hp => absurd (h.symm.trans hp) (by decide)

theorem InOrder.congr (h : pl.InOrder) (hplay : pl'.playing = true → pl.playing = true)
    (hrandom : pl'.queue.random = pl.queue.random) (hlen : pl'.queue.length = pl.queue.length)
    (hcur : pl'.current = pl.current)
    (hp : ∀ i < pl.queue.length, pl'.queue.orderPriority i = pl.queue.orderPriority i) :
    pl'.InOrder := by
  intro hplay' hrandom'
  rw [hcur]
  exact (h (hplay hplay') (hrandom.symm.trans hrandom')).congr hlen fun i hi _ => hp i hi

/-! ### The end of an edit -/

theorem queueSongOrder_yields (pl : Playlist σ) (o : ℕ) : (pl.queueSongOrder o).Yields fun pl' =>
    pl'.queue = pl.queue ∧ pl'.current = pl.current ∧ pl'.playing = pl.playing :=
  .after fun _ => .ok ⟨rfl, rfl, rfl⟩

section Update

theorem InOrder.incrementVersion (h : pl.InOrder) : pl.incrementVersion.InOrder :=
  h.congr id (Queue.random_eq pl.queue.incrementVersion_settings) pl.queue.incrementVersion_length
    rfl fun i _ => pl.queue.incrementVersion_orderPriority i

variable [DecidableEq σ]

theorem enqueueNext_yields (pl : Playlist σ) (prev : Option σ) (next : ℤ) :
    (pl.enqueueNext prev next).Yields fun pl' =>
      pl'.queue = pl.queue ∧ pl'.current = pl.current ∧ pl'.playing = pl.playing := by
  refine .after fun song => ?_
  obtain ⟨hframe, -⟩ := pl.cancelQueued_frame prev song
  have hsame : (pl.cancelQueued prev song).queue = pl.queue ∧
      (pl.cancelQueued prev song).current = pl.current ∧
      (pl.cancelQueued prev song).playing = pl.playing := by
    rw [hframe]
    exact ⟨rfl, rfl, rfl⟩
  refine .branch ?_ <| .ok hsame
  refine .branch ?_ <| .ok hsame
  refine (queueSongOrder_yields _ _).mono fun pl' hpl' => ?_
  rwa [hsame.1, hsame.2.1, hsame.2.2] at hpl'

variable [Qsort]

omit [DecidableEq σ] in
theorem reshuffle_yields (pl : Playlist σ) : pl.reshuffle.Yields fun pl' =>
    pl'.playing = pl.playing ∧ pl'.queue.Ordered 0 := by
  refine .after fun _ => ?_
  refine pl.queue.shuffleOrder_ordered.bind fun q hq => ?_
  exact .after fun _ => .ok ⟨rfl, hq⟩

theorem updateQueuedSong_yields (pl : Playlist σ) (prev : Option σ) :
    (pl.updateQueuedSong prev).Yields fun pl' => pl'.playing = pl.playing ∧
      (pl'.queue = pl.queue ∧ pl'.current = pl.current ∨ pl'.queue.Ordered 0) := by
  refine .branch ?_ <| .ok ⟨rfl, .inl ⟨rfl, rfl⟩⟩
  refine .branch .error ?_
  refine .branch .error ?_
  have hcycle : (pl.startCycle pl.nextOrder).Yields fun pl' => pl'.playing = pl.playing ∧
      (pl'.queue = pl.queue ∧ pl'.current = pl.current ∨ pl'.queue.Ordered 0) := by
    refine .branch ?_ <| .ok ⟨rfl, .inl ⟨rfl, rfl⟩⟩
    exact pl.reshuffle_yields.mono fun pl' hpl' => ⟨hpl'.1, .inr hpl'.2⟩
  refine hcycle.bind fun pl₁ h₁ => ?_
  refine (pl₁.enqueueNext_yields prev _).bind fun pl₂ ⟨hqueue, hcur, hplay⟩ => ?_
  rw [yields_pure, recordUpdate_frame]
  rwa [hqueue, hcur, hplay]

theorem InOrder.updateQueuedSong (h : pl.InOrder) (prev : Option σ) :
    (pl.updateQueuedSong prev).Yields InOrder := by
  refine (pl.updateQueuedSong_yields prev).mono fun pl' ⟨hplay, hcases⟩ hplay' hrandom => ?_
  rcases hcases with ⟨hqueue, hcur⟩ | hord
  · rw [hqueue] at hrandom ⊢
    rw [hcur]
    exact h (hplay.symm.trans hplay') hrandom
  · exact hord.mono (zero_le _)

theorem InOrder.finishEdit (h : pl.InOrder) (prev : Option σ) :
    (pl.finishEdit prev).Yields fun r => r.1.InOrder :=
  (h.incrementVersion.updateQueuedSong prev).bind fun _ hpl' => .ok hpl'

/-! ### Modes -/

theorem InOrder.modeChanged (h : pl.InOrder) : pl.modeChanged.Yields InOrder := by
  refine .after fun prev => ?_
  have h₁ : (pl.send (.setBorderPause (pl.queue.single && !pl.queue.repeat_))).InOrder := h
  exact h₁.updateQueuedSong prev

theorem InOrder.setRepeat (h : pl.InOrder) (status : Bool) : (pl.setRepeat status).Yields InOrder :=
  .branch (.ok h) <| InOrder.modeChanged fun hplay hrandom => h hplay hrandom

theorem InOrder.setSingle (h : pl.InOrder) (status : Bool) : (pl.setSingle status).Yields InOrder :=
  .branch (.ok h) <| InOrder.modeChanged fun hplay hrandom => h hplay hrandom

def RandomInOrder (pl : Playlist σ) : Prop :=
  pl.playing = true → pl.queue.random = false → ∀ p ∈ pl.designated, pl.queue.Leads p
  deriving Decidable

omit [DecidableEq σ] in
theorem Inv.startRandom_inOrder (h : pl.Inv) (hrandom : pl.queue.random = true)
    (hlead : pl.playing = true → ∀ p ∈ pl.designated, pl.queue.Leads p) :
    pl.startRandom.Yields InOrder := by
  rw [startRandom, h.rememberPosition_eq, ok_bind]
  refine (pl.queue.shuffleOrder_succeeds.yields.and pl.queue.shuffleOrder_ordered).bind ?_
  rintro q ⟨⟨hsongs, hre, -⟩, hord⟩
  have hinv := h.queue.of_rearranged hrandom hsongs hre
  by_cases hplay : pl.playing = true
  · have h0 := h.playing hplay
    have hlt := h.current_lt
    rw [if_pos hplay, h.designated_eq h0]
    have hlen : q.length = pl.queue.length := by rw [hsongs]; rfl
    have hpos : pl.queue.order pl.current.toNat < q.length := hlen ▸ h.queue.order_lt (by omega)
    refine (hinv.positionToOrder_succeeds hpos).yields.bind fun o ho => ?_
    have hleads : q.Leads (q.order o) := by
      rw [ho.2, hsongs]
      exact hlead hplay _ (h.designated_eq h0)
    -- exchanging order numbers `0` and `o` is symmetric
    have hswap : q.swapOrder 0 o = q.swapOrder o 0 := by
      rw [Queue.swapOrder, Queue.swapOrder, swapAt_eq_comp, swapAt_eq_comp, Equiv.swap_comm]
    refine .ok fun _ _ => ?_
    rw [hswap]
    exact (hleads.fits hinv hord ho.1).swapOrder
  · rw [if_neg hplay]
    exact .ok fun hp => absurd hp hplay

theorem Inv.setRandom_inOrder (h : pl.Inv) (hord : pl.InOrder) {status : Bool}
    (hc : status = true → pl.RandomInOrder) : (pl.setRandom status).Yields InOrder := by
  refine .ite (fun _ => .ok hord) fun hne => ?_
  refine .after fun prev => ?_
  refine .bind (P := InOrder) ?_ fun pl' hpl' => hpl'.updateQueuedSong prev
  cases status with
  | true =>
    have hoff : pl.queue.random = false := by simpa using hne
    exact h.withRandom.startRandom_inOrder rfl fun hplay => hc rfl hplay hoff
  | false =>
    refine .after fun _ => .ok fun _ hr => ?_
    exact absurd hr (by simp [Queue.restoreOrder])

end Update

/-! ### Starting, seeking and going back -/

theorem playOrder_yields (pl : Playlist σ) (o : ℤ) : (pl.playOrder o).Yields fun pl' =>
    pl'.queue = pl.queue ∧ pl'.current = o :=
  .after fun _ => .ok ⟨rfl, rfl⟩

theorem playOrder_inOrder (pl : Playlist σ) {o : ℤ}
    (h : pl.queue.random = true → pl.queue.Ordered (o.toNat + 1)) :
    (pl.playOrder o).Yields InOrder := by
  refine (pl.playOrder_yields o).mono fun pl' ⟨hqueue, hcur⟩ _ hrandom => ?_
  rw [hqueue] at hrandom ⊢
  rw [hcur]
  exact h hrandom

def startOrder (pl : Playlist σ) : ℕ :=
  if pl.playing then pl.current.toNat else 0

def PlaysInOrder (pl : Playlist σ) (song : ℤ) : Prop :=
  pl.queue.random = true →
    if song = -1 then pl.playing = false → pl.queue.Fits 0 pl.current.toNat
    else if 0 ≤ song then ∀ o < pl.queue.length, pl.queue.order o = unsigned song →
      pl.queue.Fits pl.startOrder o
    else pl.queue.Fits pl.startOrder (unsigned song)

instance (pl : Playlist σ) (song : ℤ) : Decidable (pl.PlaysInOrder song) :=
  inferInstanceAs (Decidable (_ → if song = -1 then _ else if 0 ≤ song then ∀ o < _, _ → _ else _))

theorem Inv.playSong_inOrder (h : pl.Inv) {song : ℤ} {i : ℕ}
    (hc : pl.queue.random = true → (pl.songOrder song i).Yields fun o =>
      pl.queue.Fits pl.startOrder o) : (pl.playSong song i).Yields fun r => r.1.InOrder := by
  have hstart : ∀ pl' : Playlist σ, ∀ o : ℤ,
      (pl'.queue.random = true → pl'.queue.Ordered (o.toNat + 1)) →
      (pl'.startAt o).Yields fun r => r.1.InOrder := fun pl' o hord =>
    (playOrder_inOrder { pl' with stopOnError := false, errorCount := 0 } hord).bind
      fun _ hpl' => .ok hpl'
  refine .ite (fun hrandom => ?_) fun hoff =>
    hstart pl i fun hrandom => absurd hrandom hoff
  refine (hc hrandom).bind fun o ho => ?_
  have hcur : unsigned (if pl.playing then pl.current else 0) = pl.startOrder ∧
      (if pl.playing then pl.current else 0).toNat = pl.startOrder := by
    unfold startOrder
    split
    · exact ⟨h.unsigned_current (h.playing ‹_›), rfl⟩
    · exact ⟨rfl, rfl⟩
  refine hstart _ _ fun _ => ?_
  simp only [hcur]
  exact ho.swapOrder

theorem Inv.play_inOrder (h : pl.Inv) (hord : pl.InOrder) {song : ℤ}
    (hc : pl.PlaysInOrder song) : (pl.play song).Yields fun r => r.1.InOrder := by
  have h₁ := h.send .clearError
  refine .ite (fun hsong => ?_) fun hsong => ?_
  · refine .branch (.ok hord) ?_
    refine .ite (fun _ => .ok hord) fun hplay => ?_
    have hcur : (if 0 ≤ pl.current then unsigned pl.current else 0) = pl.current.toNat := by
      split
      · exact h.unsigned_current ‹_›
      · omega
    show ((pl.send .clearError).playSong song
      (if 0 ≤ pl.current then unsigned pl.current else 0)).Yields _
    rw [hcur]
    refine h₁.playSong_inOrder fun hrandom => ?_
    have hfits := hc hrandom
    rw [if_pos hsong] at hfits
    rw [songOrder, if_neg (by omega), show (pl.send .clearError).startOrder = 0 from if_neg hplay]
    exact .ok (hfits (Bool.eq_false_iff.mpr hplay))
  · refine .ite (fun hvalid => ?_) fun _ => .ok hord
    have hvalid : unsigned song < pl.queue.length := of_decide_eq_true hvalid
    refine h₁.playSong_inOrder fun hrandom => ?_
    have hfits := hc hrandom
    rw [if_neg hsong] at hfits
    refine .ite (fun h0 => ?_) fun hneg => ?_
    · rw [if_pos h0] at hfits
      exact (h.queue.positionToOrder_succeeds hvalid).yields.mono fun o ho => hfits o ho.1 ho.2
    · rw [if_neg hneg] at hfits
      exact .ok hfits

def PlaysIdInOrder (pl : Playlist σ) (id : ℤ) : Prop :=
  if id = -1 then pl.PlaysInOrder id
  else 0 ≤ pl.queue.positionOfId (unsigned id) →
    pl.PlaysInOrder (pl.queue.positionOfId (unsigned id))
  deriving Decidable

theorem Inv.playId_inOrder (h : pl.Inv) (hord : pl.InOrder) {id : ℤ}
    (hc : pl.PlaysIdInOrder id) : (pl.playId id).Yields fun r => r.1.InOrder := by
  refine .ite (fun hid => ?_) fun hid => ?_
  · rw [PlaysIdInOrder, if_pos hid] at hc
    exact h.play_inOrder hord hc
  · rw [PlaysIdInOrder, if_neg hid] at hc
    exact .ite (fun _ => .ok hord) fun hpos =>
      h.play_inOrder hord (hc (not_lt.mp hpos))

def GoesBackInOrder (pl : Playlist σ) : Prop :=
  pl.playing = true → pl.queue.random = true → 0 < pl.current →
    pl.queue.Ordered pl.current.toNat
  deriving Decidable

theorem InOrder.previous (h : pl.InOrder) (hc : pl.GoesBackInOrder) :
    pl.previous.Yields InOrder := by
  refine .ite (fun hplay => ?_) fun _ => .ok h
  refine .ite (fun hpos => pl.playOrder_inOrder fun hrandom => ?_) fun _ => ?_
  · rw [show (pl.current - 1).toNat + 1 = pl.current.toNat by omega]
    exact hc hplay hrandom hpos
  · refine .branch (pl.playOrder_inOrder fun hrandom => ?_) <| pl.playOrder_inOrder (h hplay)
    -- nothing comes behind the last song
    intro j hj i hij hi
    omega

section Seek

variable [DecidableEq σ] [Qsort]

def SeeksInOrder (pl : Playlist σ) (p : ℕ) : Prop :=
  pl.queue.random = true → ∀ o < pl.queue.length, pl.queue.order o = p → pl.queue.Ordered (o + 1)

omit [DecidableEq σ] [Qsort] in
instance (pl : Playlist σ) (p : ℕ) : Decidable (pl.SeeksInOrder p) :=
  inferInstanceAs (Decidable (_ → ∀ o < _, _ → _))

theorem Inv.seekSong_inOrder (h : pl.Inv) (hord : pl.InOrder) {p : ℕ} (hc : pl.SeeksInOrder p) :
    (pl.seekSong p).Yields fun r => r.1.InOrder := by
  refine .ite (fun hvalid => ?_) fun _ => .ok hord
  refine .after fun _ => ?_
  refine (orderOf_succeeds h.queue (of_decide_eq_true hvalid)).yields.bind fun o ho => ?_
  dsimp only
  rw [h.seeking.changeSong_eq]
  refine .after fun song => ?_
  refine .bind (InOrder.updateQueuedSong ?_ none) fun _ hpl' =>
    .ok hpl'
  intro _ hrandom
  exact hc hrandom o ho.1 ho.2

def SeeksIdInOrder (pl : Playlist σ) (id : ℕ) : Prop :=
  0 ≤ pl.queue.positionOfId id → pl.SeeksInOrder (pl.queue.positionOfId id).toNat
  deriving Decidable

theorem Inv.seekSongId_inOrder (h : pl.Inv) (hord : pl.InOrder) {id : ℕ}
    (hc : pl.SeeksIdInOrder id) : (pl.seekSongId id).Yields fun r => r.1.InOrder :=
  .ite (fun _ => .ok hord) fun hpos =>
    h.seekSong_inOrder hord (hc (not_lt.mp hpos))

def SeeksCurrentInOrder (pl : Playlist σ) (relative : Bool) : Prop :=
  pl.playing = true → (relative = true → pl.pc.view.state ≠ .stop) →
    pl.SeeksInOrder pl.current.toNat
  deriving Decidable

theorem Inv.seekCurrent_inOrder (h : pl.Inv) (hord : pl.InOrder) {relative : Bool}
    (hc : pl.SeeksCurrentInOrder relative) :
    (pl.seekCurrent relative).Yields fun r => r.1.InOrder := by
  refine .ite (fun hplay => ?_) fun _ => .ok hord
  have hcur := h.unsigned_current (h.playing hplay)
  refine .ite (fun hrel => ?_) fun hrel => ?_
  · refine .ite (fun _ => .ok hord) fun hstate => ?_
    refine h.seen.seekSong_inOrder hord ?_
    show pl.SeeksInOrder (unsigned pl.current)
    rw [hcur]
    refine hc hplay fun _ hstop => hstate ?_
    rw [hstop]
    exact ⟨by decide, by decide⟩
  · rw [hcur]
    exact h.seekSong_inOrder hord (hc hplay fun hr => absurd hr hrel)

end Seek

/-! ### Adding songs -/

def AppendsInOrder (pl : Playlist σ) : Prop :=
  pl.playing = true → pl.queue.random = true → pl.queue.isFull = true ∨
    pl.current + 1 = pl.queue.length ∨
    ∀ o < pl.queue.length, pl.remainingStart ≤ o → pl.queue.orderPriority o = 0

instance (pl : Playlist σ) : Decidable pl.AppendsInOrder :=
  inferInstanceAs (Decidable (_ → _ → _ ∨ _ ∨ ∀ o < _, _ → _))

theorem Inv.withSong_inOrder (h : pl.Inv) (hord : pl.InOrder) (hfull : pl.queue.isFull = false)
    (hc : pl.AppendsInOrder) (song : σ) (id : ℕ) : (pl.withSong song id).InOrder := by
  have hframe := pl.withSong_frame song id
  have hsongs := pl.withSong_sameSongs song id
  have hlen : (pl.withSong song id).queue.length = pl.queue.length + 1 := by
    rw [hsongs]
    rfl
  intro hplay' hrandom'
  have hplay : pl.playing = true := by rwa [hframe] at hplay'
  have hrandom : pl.queue.random = true := by rwa [hsongs] at hrandom'
  have hcur : (pl.withSong song id).current = pl.current := by rw [hframe]
  rcases hc hplay hrandom with hf | hlast | hzero
  · exact absurd (hfull.symm.trans hf) (by decide)
  · -- the new song, or the one it changes places with, is the only one behind
    intro j hj i hij hi
    obtain rfl : i = j := by omega
    exact le_rfl
  · have hold := fun i hi => h.queue.appended_orderPriority song 0 id (i := i) hi
    have hnew := pl.queue.appended_orderPriority_length song 0 id
    have happ : (pl.queue.appended song 0 id).Ordered (pl.current.toNat + 1) := by
      intro j hj i hij hi
      rcases (Nat.lt_succ_iff.mp hj).lt_or_eq with hj | rfl
      · rw [hold j hj, hold i (hij.trans_lt hj)]
        exact hord hplay hrandom j hj i hij hi
      · rw [hnew]
        exact zero_le _
    unfold withSong
    rw [if_pos (show (pl.queue.appended song 0 id).random = true from hrandom), shuffleAppended]
    split
    · next hstart =>
      refine happ.shuffleOrderLast hstart hnew fun i hi hsi => ?_
      rcases (Nat.lt_succ_iff.mp hi).lt_or_eq with hi | rfl
      · rw [hold i hi]
        exact hzero i hi hsi
      · exact hnew
    · exact happ

section Edit

theorem Inv.shuffleStart_inOrder (h : pl.Inv) {start stop : ℕ} (hstop : stop ≤ pl.queue.length)
    (hc : pl.playing = true → pl.queue.random = true → ∀ d ∈ pl.designated,
      ∀ o < pl.queue.length, (pl.queue.order o = if start ≤ d ∧ d < stop then start else d) →
        pl.queue.ShufflesInOrder start stop d o) :
    (pl.shuffleStart start stop).Yields fun r =>
      InOrder { r.1 with queue := r.1.queue.shuffleRange r.2 stop } := by
  refine .ite (fun hplay => ?_) fun hplay => ?_
  · obtain ⟨c, hcur⟩ := Int.eq_ofNat_of_zero_le hplay.2
    have hlt := h.current_lt
    have hcn : c < pl.queue.length := by omega
    have hn := h.queue.length_lt
    have hshuffles := fun hrandom => hc hplay.1 hrandom _ (designated_natCast hcur hcn)
    rw [hcur, unsigned_natCast (by omega), orderToPosition_eq hcn, ok_bind]
    refine .ite (fun hin => ?_) fun hout => ?_
    · have hstart : start < pl.queue.length := by omega
      have hinv := h.queue.swap hstart (h.queue.order_lt hcn)
      refine (orderOf_succeeds hinv hstart).yields.bind fun o ho => ?_
      refine .ok fun _ hrandom => ?_
      have hrandom : pl.queue.random = true := by
        rwa [(shuffled_shuffleRange (pl.queue.swap _ _) (start + 1) hstop).frame] at hrandom
      have hso := hshuffles hrandom o ho.1 (by rw [if_pos hin]; exact ho.2)
      exact hso.swap_shuffleRange h.queue hstop hin ho.1 ho.2
    · refine .ok fun _ hrandom => ?_
      have hrandom : pl.queue.random = true := by
        rwa [(shuffled_shuffleRange pl.queue start hstop).frame] at hrandom
      show (pl.queue.shuffleRange start stop).Ordered (pl.current.toNat + 1)
      rw [hcur, Int.toNat_natCast]
      exact (hshuffles hrandom c hcn (by rw [if_neg hout])).shuffleRange h.queue hstop hout
  · exact .ok fun hp => absurd ⟨hp, h.playing hp⟩ hplay

def ShufflesInOrder (pl : Playlist σ) (start stop : ℕ) : Prop :=
  pl.playing = true → pl.queue.random = true → unsigned (start + 1) < min stop pl.queue.length →
    ∀ d ∈ pl.designated, ∀ o < pl.queue.length,
      (pl.queue.order o = if start ≤ d ∧ d < min stop pl.queue.length then start else d) →
        pl.queue.ShufflesInOrder start (min stop pl.queue.length) d o

instance (pl : Playlist σ) (start stop : ℕ) : Decidable (pl.ShufflesInOrder start stop) :=
  inferInstanceAs (Decidable (_ → _ → _ → ∀ d ∈ _, ∀ o < _, _ → _))

variable [DecidableEq σ] [Qsort] (h : pl.Inv) (hord : pl.InOrder)
include h hord

theorem Inv.appendSong_inOrder (hc : pl.AppendsInOrder)
    (song : σ) : (pl.appendSong song).Yields fun r => r.1.InOrder := by
  refine .ite (fun _ => .ok hord) fun hfull => ?_
  rw [Bool.not_eq_true] at hfull
  have hlt : pl.queue.length < pl.queue.maxLength := not_le.mp (of_decide_eq_false hfull)
  refine .after fun prev => ?_
  refine (h.queue.append_succeeds hlt song 0).yields.bind ?_
  rintro ⟨q, id⟩ ⟨heq, -⟩
  obtain rfl : q = pl.queue.appended song 0 id := heq
  exact (h.withSong_inOrder hord hfull hc song id).finishEdit prev

/-! ### Exchanging and moving songs -/

theorem Inv.swapSongs_inOrder (p₁ p₂ : ℕ) : (pl.swapSongs p₁ p₂).Yields fun r => r.1.InOrder := by
  refine .ite (fun hvalid => ?_) fun _ => .ok hord
  rw [Bool.and_eq_true] at hvalid
  have h₁ : p₁ < pl.queue.length := of_decide_eq_true hvalid.1
  have h₂ : p₂ < pl.queue.length := of_decide_eq_true hvalid.2
  have hinv := h.queue.swap h₁ h₂
  refine .after fun prev => ?_
  refine .bind (P := InOrder) ?_ fun pl' hpl' => hpl'.finishEdit prev
  refine .ite (fun hrandom => ?_) fun hoff => ?_
  · refine (hinv.positionToOrder_succeeds h₁).yields.bind fun o₁ ho₁ => ?_
    refine (hinv.positionToOrder_succeeds h₂).yields.bind fun o₂ ho₂ => ?_
    -- the songs have changed their positions, and the order follows them
    refine .ok (hord.congr id rfl rfl rfl fun i hi => ?_)
    show ((pl.queue.swap p₁ p₂).priorityAt (((pl.queue.swap p₁ p₂).swapOrder o₁ o₂).order i)) = _
    rw [swapOrder_order hinv ho₁.1 ho₂.1 hi, ho₁.2, ho₂.2, swap_priorityAt, Equiv.swap_apply_self]
    rfl
  · have hoff' : ∀ pl' : Playlist σ, pl'.queue = pl.queue.swap p₁ p₂ → pl'.InOrder :=
      fun pl' hq _ hr => absurd (hq ▸ hr) hoff
    refine .branch (.ok (hoff' _ rfl)) ?_
    exact .branch (.ok (hoff' _ rfl)) <| .ok (hoff' _ rfl)

theorem Inv.moveRange_inOrder {start stop : UInt32}
    {dst : Int32} (hr : pl.MoveInRange start stop dst) :
    (pl.moveRange start stop dst).Yields fun r => r.1.InOrder := by
  obtain ⟨result, heq⟩ | ⟨prev, -, t, hr, heq⟩ := h.moveRange_eq hr
  · rw [heq]
    exact .ok hord
  · have hn := h.queue.length_lt
    have hcast : unsigned (t : ℤ) = t := by
      have := hr.dst_le
      exact unsigned_natCast (by omega)
    have hset := moveRangeBody_settings hr (by omega)
    rw [heq, performMove, hcast, h.queue.moveRange_eq hr, ok_bind]
    refine InOrder.finishEdit (fun hplay hrandom => ?_) prev
    have hrandom : pl.queue.random = true := (random_eq hset).symm.trans hrandom
    simp only [random_eq hset, hrandom, if_true]
    refine (hord hplay hrandom).congr (moveRangeBody_length hr (by omega)) fun i hi _ => ?_
    show (pl.queue.moveRangeBody _ _ _).priorityAt _ = _
    rw [h.queue.moveRangeBody_order hr hrandom hi, moveRangeBody_priorityAt pl.queue hr (by omega),
      rangeSource_rangeTarget hr.start_le]
    rfl

/-! ### Priorities -/

theorem Inv.applyPriority_inOrder {start stop : ℕ}
    (h₁ : start ≤ stop) (h₂ : stop ≤ pl.queue.length) (priority : ℕ) :
    (pl.applyPriority start stop priority).Yields fun r => r.1.InOrder := by
  rw [applyPriority, h.rememberPosition_current, ok_bind]
  refine .after fun prev => ?_
  by_cases hp : pl.playing = true ∧ pl.queue.random = true
  · obtain ⟨hplay, hrandom⟩ := hp
    have h0 := h.playing hplay
    have hlt := h.current_lt
    obtain ⟨c, hc⟩ := Int.eq_ofNat_of_zero_le h0
    have hcn : c < pl.queue.length := by omega
    have hordc := hord hplay hrandom
    rw [hc, Int.toNat_natCast] at hordc
    rw [hc, designated_natCast hc hcn]
    have hcn' : (c : ℤ) < pl.queue.length := Int.ofNat_lt.mpr hcn
    have hbehind := h.queue.setPriorityRange_ordered priority hrandom h₁ h₂
      (d := some (pl.queue.order c)) ⟨c, hcn, rfl, rfl⟩ hordc
    rw [show ((c + 1 : ℕ) : ℤ) - 1 = c by omega] at hbehind
    refine ((h.queue.setPriorityRange_succeeds h₁ h₂ hcn').yields.and hbehind).bind ?_
    rintro ⟨q, modified⟩ ⟨hinv, _, ⟨a, ha, haq, rfl⟩, hbehind⟩
    dsimp only [restoreCurrent]
    rw [← haq, hinv.positionToOrder_order ha]
    exact InOrder.finishEdit (fun _ _ => hbehind) prev
  · refine (pl.queue.setPriorityRange_yields h₁ priority pl.current).bind fun r hr => ?_
    refine .bind (P := InOrder) ?_ fun pl' hpl' => hpl'.finishEdit prev
    have hoff : ∀ pl' : Playlist σ, pl'.queue = r.1 → pl'.playing = pl.playing → pl'.InOrder := by
      intro pl' hq hpl hplay hrandom
      rw [hq, hr] at hrandom
      exact absurd ⟨hpl.symm.trans hplay, hrandom⟩ hp
    cases pl.designated with
    | none => exact .ok (hoff _ rfl rfl)
    | some p => exact .after fun _ => .ok (hoff _ rfl rfl)

theorem Inv.setPriority_inOrder (start stop priority : ℕ) :
    (pl.setPriority start stop priority).Yields fun r => r.1.InOrder := by
  refine .branch (.ok hord) ?_
  refine .ite (fun _ => .ok hord) fun hlt => ?_
  exact h.applyPriority_inOrder hord (not_le.mp hlt).le (min_le_right _ _) priority

/-! ### Shuffling songs -/

theorem Inv.shuffle_inOrder {start stop : ℕ}
    (hc : pl.ShufflesInOrder start stop) : (pl.shuffle start stop).Yields InOrder := by
  have hstop : min stop pl.queue.length ≤ pl.queue.length := min_le_right _ _
  refine .ite (fun _ => .ok hord) fun hlt => ?_
  refine .after fun prev => ?_
  refine (h.shuffleStart_inOrder hstop fun hplay hrandom =>
    hc hplay hrandom (not_le.mp hlt)).bind fun r hr => ?_
  exact (InOrder.finishEdit hr prev).bind fun r' hr' => .ok hr'

end Edit

/-! ### Deleting songs -/

def DeletesInOrder (pl : Playlist σ) (D : ℕ → Prop) : Prop :=
  pl.playing = true → pl.queue.random = true →
    pl.queue.OrderedWithout D pl.current.toNat ∧
    ((∀ o < pl.queue.length, pl.current.toNat ≤ o → D (pl.queue.order o)) →
      pl.queue.OrderedWithout D 0)

instance (pl : Playlist σ) (D : ℕ → Prop) [DecidablePred D] : Decidable (pl.DeletesInOrder D) :=
  inferInstanceAs (Decidable (_ → _ → _ ∧ ((∀ o < _, _ → _) → _)))

variable {D D' : ℕ → Prop}

theorem DeletesInOrder.congr (h : pl.DeletesInOrder D) (hD : ∀ x, D x ↔ D' x) :
    pl.DeletesInOrder D' := by
  have hDD : D = D' := funext fun x => propext (hD x)
  exact hDD ▸ h

theorem DeletesInOrder.inOrder (h : pl.DeletesInOrder D) (hD : ∀ x, ¬ D x) : pl.InOrder :=
  fun hplay hrandom => (h hplay hrandom).1.ordered hD

theorem InOrder.deletesInOrder (h : pl.InOrder) (hpl : pl.Inv)
    (hD : ∀ p ∈ pl.designated, ¬ D p) : pl.DeletesInOrder D := by
  intro hplay hrandom
  have h0 := hpl.playing hplay
  have hlt := hpl.current_lt
  refine ⟨(h hplay hrandom).without D, fun hall => ?_⟩
  exact absurd (hall _ (by omega) le_rfl) (hD _ (hpl.designated_eq h0))

theorem nextOrder_eq_of_ne {q : Queue σ} {o c : ℕ} (h : q.nextOrder o = c) (hne : c ≠ o) :
    c = o + 1 ∨ c = 0 ∧ q.length ≤ o + 1 := by
  unfold Queue.nextOrder at h
  split_ifs at h <;> omega

/-- **Deleting one song**, the last one of `D`. -/
theorem AfterDelete.deletesInOrder {o : ℕ} (h : AfterDelete pl o pl' prev) (hq : pl.queue.Inv)
    (ho : o < pl.queue.length) (hD : D (pl.queue.order o))
    (hmax : ∀ x, D x → x ≤ pl.queue.order o) (hd : pl.DeletesInOrder D) :
    pl'.DeletesInOrder fun x => D x ∧ x ≠ pl.queue.order o := by
  intro hplay' hrandom'
  obtain ⟨hplay, hqueue, c, hc, hco, hcur', hnext⟩ := h.playing hplay'
  obtain ⟨hbehind, hagain⟩ := hd hplay ((random_eq h.settings).symm.trans hrandom')
  -- what is known of `current` holds of the song that is played now
  obtain ⟨hc₁, hc₂⟩ : pl.queue.OrderedWithout D c ∧
      ((∀ i < pl.queue.length, c ≤ i → D (pl.queue.order i)) → pl.queue.OrderedWithout D 0) := by
    rcases hnext with ⟨hcur, -⟩ | ⟨hcur, hnext, -⟩
    · rw [hcur, Int.toNat_natCast] at hbehind hagain
      exact ⟨hbehind, hagain⟩
    · rw [hcur, Int.toNat_natCast] at hbehind hagain
      rcases nextOrder_eq_of_ne hnext hco with rfl | ⟨rfl, hlast⟩
      · refine ⟨hbehind.mono (le_succ o), fun hall => hagain fun i hi hoi => ?_⟩
        rcases hoi.eq_or_lt with rfl | hlt
        · exact hD
        · exact hall i hi hlt
      · have hzero := hagain fun i hi hoi => by
          obtain rfl : i = o := by omega
          exact hD
        exact ⟨hzero, fun _ => hzero⟩
  rw [hqueue, hcur', Int.toNat_natCast]
  exact ⟨hc₁.deleted hq ho hmax hco, fun hall =>
    (hc₂ (hq.forall_of_deleted ho hD hmax hco hall)).deleted_zero hq ho hmax⟩

section Delete

variable [Qsort] [DecidableEq σ]

theorem DeletesInOrder.finishEdit (h : pl.DeletesInOrder D) (prev : Option σ) :
    (pl.finishEdit prev).Yields fun r => r.1.DeletesInOrder D := by
  refine (pl.incrementVersion.updateQueuedSong_yields prev).bind fun pl' ⟨hplay, hcases⟩ =>
    .ok fun hplay' hrandom => ?_
  rcases hcases with ⟨hqueue, hcur⟩ | hord
  · rw [hqueue] at hrandom
    obtain ⟨h₁, h₂⟩ := h (hplay.symm.trans hplay')
      ((random_eq pl.queue.incrementVersion_settings).symm.trans hrandom)
    have hsame : ∀ o, pl.queue.OrderedWithout D o → pl'.queue.OrderedWithout D o := by
      intro o hw
      rw [hqueue]
      intro j hj i hij k hki hk
      simp only [Playlist.incrementVersion, incrementVersion_orderPriority,
        incrementVersion_order, incrementVersion_length] at hj hk ⊢
      exact hw j hj i hij k hki hk
    rw [hcur]
    refine ⟨hsame _ h₁, fun hall => hsame _ (h₂ fun o ho hle => ?_)⟩
    rw [hqueue] at hall
    simp only [Playlist.incrementVersion, incrementVersion_order, incrementVersion_length] at hall
    exact hall o ho hle
  · exact ⟨(hord.mono (zero_le _)).without D, fun _ =>
      (hord.mono (zero_le _)).without D⟩

variable [SongRef σ]

theorem Inv.delete_deletesInOrder (h : pl.Inv) {p : ℕ} (hp : p < pl.queue.length) {looks : ℕ}
    (hD : D p) (hmax : ∀ x, D x → x ≤ p) (hmay : pl.MayDelete D (looks + 1))
    (hd : pl.DeletesInOrder D) :
    (pl.delete p).Yields fun r => r.1.DeletesInOrder fun x => D x ∧ x ≠ p := by
  obtain ⟨o, ho, rfl⟩ := h.queue.exists_order hp
  rw [delete, if_neg hp.not_ge]
  refine h.getQueuedSong_succeeds.yields.bind fun prev hprev => ?_
  refine (hprev.deleteInternal_succeeds ho hD hmax hmay).yields.bind ?_
  rintro ⟨pl₁, prev₁⟩ ⟨h₁, -⟩
  exact (h₁.deletesInOrder h.queue ho hD hmax hd).finishEdit prev₁

theorem Inv.delete_inOrder (h : pl.Inv) (hord : pl.InOrder) {p : ℕ}
    (hmay : pl.MayDelete (fun x => x = p) 1) (hd : pl.DeletesInOrder fun x => x = p) :
    (pl.delete p).Yields fun r => r.1.InOrder := by
  rcases lt_or_ge p pl.queue.length with hp | hp
  · exact (h.delete_deletesInOrder (D := fun x => x = p) hp rfl (fun _ hx => hx.le) hmay hd).mono
      fun r hr => hr.inOrder fun x hx => hx.2 hx.1
  · rw [delete, if_pos hp]
    exact .ok hord

theorem Inv.deleteId_inOrder (h : pl.Inv) (hord : pl.InOrder) {id : ℕ}
    (hmay : pl.MayDelete (fun x => (x : ℤ) = pl.queue.positionOfId id) 1)
    (hd : pl.DeletesInOrder fun x => (x : ℤ) = pl.queue.positionOfId id) :
    (pl.deleteId id).Yields fun r => r.1.InOrder := by
  refine .ite (fun _ => .ok hord) fun hid => ?_
  exact h.delete_inOrder hord (hmay.congr (fun x => by omega) le_rfl) (hd.congr fun x => by omega)

omit [DecidableEq σ] in
theorem Editing.deleteDown_inOrder (h : pl.Editing prev) (start n : ℕ)
    (hlen : start + n ≤ pl.queue.length)
    (hmay : pl.MayDelete (fun x => start ≤ x ∧ x < start + n) n)
    (hd : pl.DeletesInOrder fun x => start ≤ x ∧ x < start + n) :
    (deleteDown start n pl prev).Yields fun r => r.1.InOrder := by
  induction n generalizing pl prev with
  | zero => exact .ok (hd.inOrder fun x hx => by omega)
  | succ n ih =>
    obtain ⟨o, ho, hp⟩ := h.queue.exists_order (show start + n < pl.queue.length by omega)
    rw [deleteDown, ← hp]
    refine (h.deleteInternal_succeeds ho (by omega) (fun x hx => by omega) hmay).yields.bind ?_
    rintro ⟨pl₁, prev₁⟩ ⟨h₁, hmay₁⟩
    have hlen₁ := h₁.length
    have hd₁ := h₁.deletesInOrder h.queue ho (by omega) (fun x hx => by omega) hd
    exact ih h₁.editing (by dsimp only at hlen₁ ⊢; omega)
      (hmay₁.congr (fun x => by omega) le_rfl) (hd₁.congr fun x => by omega)

theorem Inv.deleteRange_inOrder (h : pl.Inv) (hord : pl.InOrder) {start stop : ℕ}
    (hmay : pl.MayDelete (fun x => start ≤ x ∧ x < min stop pl.queue.length)
      (min stop pl.queue.length - start))
    (hd : pl.DeletesInOrder fun x => start ≤ x ∧ x < min stop pl.queue.length) :
    (pl.deleteRange start stop).Yields fun r => r.1.InOrder := by
  refine .branch (.ok hord) ?_
  refine .ite (fun _ => .ok hord) fun hlt => ?_
  refine h.getQueuedSong_succeeds.yields.bind fun prev hprev => ?_
  refine (hprev.deleteDown_inOrder start (min stop pl.queue.length - start) (by omega)
    (hmay.congr (fun x => by omega) le_rfl) (hd.congr fun x => by omega)).bind ?_
  rintro ⟨pl₁, prev₁⟩ h₁
  exact h₁.finishEdit prev₁

theorem Inv.deleteSongBelow_inOrder (h : pl.Inv) {song : σ} {n : ℕ} (hlen : n ≤ pl.queue.length)
    (hmay : pl.MayDelete (fun x => x < n ∧ (pl.queue.items x).song = song) n)
    (hd : pl.DeletesInOrder fun x => x < n ∧ (pl.queue.items x).song = song) :
    (deleteSongBelow song n pl).Yields InOrder := by
  induction n generalizing pl with
  | zero => exact .ok (hd.inOrder fun x hx => absurd hx.1 (not_lt_zero x))
  | succ n ih =>
    rw [deleteSongBelow, get_eq (by omega), ok_bind]
    refine .ite (fun heq => ?_) fun hne => ?_
    · have hmax : ∀ x, x < n + 1 ∧ (pl.queue.items x).song = song → x ≤ n := fun x hx => by omega
      refine ((h.delete_succeeds (by omega) (D := fun x => x < n + 1 ∧
        (pl.queue.items x).song = song) ⟨by omega, heq⟩ hmax hmay).yields.and
        (h.delete_deletesInOrder (by omega) ⟨by omega, heq⟩ hmax hmay hd)).bind ?_
      rintro ⟨pl₁, status⟩ ⟨⟨h₁, hmay₁⟩, hd₁⟩
      have hlen₁ := h₁.length
      have hrest := h₁.song_below song
      exact ih h₁.inv (by dsimp only at hlen₁ ⊢; omega) (hmay₁.congr hrest le_rfl) (hd₁.congr hrest)
    · have hrest : ∀ x, x < n + 1 ∧ (pl.queue.items x).song = song ↔
          x < n ∧ (pl.queue.items x).song = song :=
        fun x => lt_succ_and_iff (P := fun x => (pl.queue.items x).song = song) hne x
      exact ih h (by omega) (hmay.congr hrest (le_succ n)) (hd.congr hrest)

theorem Inv.deleteSong_inOrder (h : pl.Inv) {song : σ}
    (hmay : pl.MayDelete (fun x => x < pl.queue.length ∧ (pl.queue.items x).song = song)
      pl.queue.length)
    (hd : pl.DeletesInOrder fun x => x < pl.queue.length ∧ (pl.queue.items x).song = song) :
    (pl.deleteSong song).Yields InOrder :=
  (h.deleteSongBelow_inOrder le_rfl hmay hd).bind fun _ hpl' => .ok hpl'

/-! ### Going on to the next song -/

theorem Inv.consumeSong_inOrder (h : pl.Inv) (hord : pl.InOrder) {c : ℕ} (hc : c < pl.queue.length)
    (hmay : pl.queue.consume = true → pl.MayDelete (fun x => x = pl.queue.order c) 1)
    (hd : pl.queue.consume = true → pl.DeletesInOrder fun x => x = pl.queue.order c) :
    (pl.consumeSong c).Yields InOrder := by
  refine .ite (fun hconsume => ?_) fun _ => .ok hord
  have hn := h.queue.length_lt
  rw [unsigned_natCast (by omega), orderToPosition_eq hc, ok_bind]
  exact (h.delete_inOrder hord (hmay hconsume) (hd hconsume)).bind fun r hr =>
    .ok hr

omit [DecidableEq σ] [SongRef σ] in
theorem Advanced.inOrder (h : Advanced pl pl') (hord : pl.InOrder) (hplay : pl.playing = true) :
    pl'.InOrder := by
  intro _ hrandom'
  have hrandom : pl.queue.random = true := by
    rwa [h.songs] at hrandom'
  have hqueue := h.queue
  have hcur := h.current
  split at hqueue
  · exact (pl.queue.shuffleOrder_ordered _ hqueue).mono (zero_le _)
  · next hpos =>
    rw [hqueue]
    refine (hord hplay hrandom).mono ?_
    unfold Queue.nextOrder at hcur hpos
    split_ifs at hcur hpos <;> simp only [hrandom, and_true] at hpos <;> omega

theorem Inv.next_inOrder (h : pl.Inv) (hord : pl.InOrder) : pl.next.Yields InOrder := by
  refine .ite (fun hplay => ?_) fun _ => .ok hord
  have h₀ := h.goingOn
  have h0 := h.playing hplay
  have hlt := h.current_lt
  refine (h₀.advance_succeeds hplay).yields.bind fun pl₁ hadv => ?_
  have hlen : pl₁.queue.length = pl.queue.length := by rw [hadv.songs]; rfl
  have hconsume : pl₁.queue.consume = pl.queue.consume := by rw [hadv.songs]; rfl
  have hord₁ : pl₁.InOrder := hadv.inOrder hord hplay
  have hne := fun hcons => hadv.designated_ne h₀ hplay (hconsume.symm.trans hcons)
  have hcur : pl.current = (pl.current.toNat : ℕ) := (Int.toNat_of_nonneg h0).symm
  have := hadv.inv.consumeSong_inOrder hord₁ (c := pl.current.toNat) (by omega)
    (fun hcons => mayDelete_of_ne (hne hcons))
    fun hcons => hord₁.deletesInOrder hadv.inv fun p hp heq => hne hcons (heq ▸ hp)
  rwa [← hcur] at this

/-! ### Player events -/

def SyncsInOrder (pl : Playlist σ) : Prop :=
  pl.playing = true → pl.queue.random = true → pl.pc.view.state ≠ .stop →
    pl.pc.view.nextSong = none → pl.queued ≠ -1 →
      pl.queue.Ordered (pl.queued.toNat + 1) ∧
      (pl.queue.consume = true → pl.queued = pl.current →
        pl.DeletesInOrder fun x => pl.designated = some x)
  deriving Decidable

theorem Inv.songStarted_inOrder (h : pl.Inv) (hplay : pl.playing = true) (hqueued : pl.queued ≠ -1)
    (hmay : pl.queue.consume = true → pl.queued = pl.current →
      pl.MayDelete (fun x => pl.designated = some x) 1)
    (hc : pl.queue.random = true → pl.queue.Ordered (pl.queued.toNat + 1) ∧
      (pl.queue.consume = true → pl.queued = pl.current →
        pl.DeletesInOrder fun x => pl.designated = some x)) :
    pl.songStarted.Yields InOrder := by
  obtain ⟨hcur, ho⟩ := h.current_bounds hplay
  have h₁ := h.started hqueued
  have hord : InOrder { pl with current := pl.queued, queued := -1 } :=
    fun _ hrandom => (hc hrandom).1
  rw [songStarted, hcur]
  refine h₁.consumeSong_inOrder hord ho
    (fun hcons => h.started_mayDelete hplay hqueued (hmay hcons)) fun hcons => ?_
  by_cases heq : pl.queued = pl.current
  · intro _ hrandom
    have hd : pl.DeletesInOrder fun x => x = pl.queue.order pl.current.toNat :=
      ((hc hrandom).2 hcons heq).congr fun x => by
        rw [h.designated_eq (h.playing hplay), Option.some.injEq, eq_comm]
    rw [heq]
    exact hd hplay hrandom
  · refine hord.deletesInOrder h₁ fun p hp hpeq => ?_
    exact h.started_designated_ne hplay hqueued heq (hpeq ▸ hp)

theorem Inv.resumePlayback_inOrder (h : pl.Inv) (hord : pl.InOrder) :
    pl.resumePlayback.Yields InOrder := by
  have h₁ : ∀ count, Inv { pl.seen with errorCount := count } := fun count =>
    h.congr rfl rfl rfl rfl rfl
  refine .branch ?_ ?_
  · exact (h₁ _).stop_succeeds.yields.mono fun pl' hpl' => inOrder_of_stopped hpl'.2.2
  · exact (h₁ _).next_inOrder hord

theorem Inv.sync_inOrder (h : pl.Inv) (hord : pl.InOrder) (hmay : pl.MaySync)
    (hc : pl.SyncsInOrder) : pl.sync.Yields InOrder := by
  refine .ite (fun hplay => ?_) fun _ => .ok hord
  refine .ite (fun _ => h.seen.resumePlayback_inOrder hord) fun hstate => ?_
  have hstarted : (pl.seen.syncStarted pl.pc.view.nextSong).Yields InOrder := by
    refine .ite (fun hq => ?_) fun _ => .ok hord
    exact h.seen.songStarted_inOrder hplay hq.2 (fun hcons heq => hmay hcons heq hstate hq.1)
      fun hrandom => hc hplay hrandom hstate hq.1 hq.2
  refine hstarted.bind fun pl' hpl' => ?_
  have hseen : pl'.seen.InOrder := hpl'
  exact .branch (hseen.updateQueuedSong none) <| .ok hpl'

end Delete

/-! ### Runs -/

/-- What keeps the songs behind the current one in order. -/
def Op.KeepsPriorities : Op σ → Playlist σ → Prop
  | appendSong _, pl => pl.AppendsInOrder
  | delete song, pl => pl.DeletesInOrder fun p => p = song
  | deleteId id, pl => pl.DeletesInOrder fun p => (p : ℤ) = pl.queue.positionOfId id
  | deleteRange start limit, pl =>
    pl.DeletesInOrder fun p => start ≤ p ∧ p < min limit pl.queue.length
  | deleteSong song, pl =>
    pl.DeletesInOrder fun p => p < pl.queue.length ∧ (pl.queue.items p).song = song
  | shuffle start limit, pl => pl.ShufflesInOrder start limit
  | setRandom status, pl => status = true → pl.RandomInOrder
  | play song, pl => pl.PlaysInOrder song
  | playId id, pl => pl.PlaysIdInOrder id
  | previous, pl => pl.GoesBackInOrder
  | seekSong song, pl => pl.SeeksInOrder song
  | seekSongId id, pl => pl.SeeksIdInOrder id
  | seekCurrent relative, pl => pl.SeeksCurrentInOrder relative
  | sync, pl => pl.SyncsInOrder
  | _, _ => True

instance [DecidableEq σ] (op : Op σ) (pl : Playlist σ) : Decidable (op.KeepsPriorities pl) := by
  rcases op <;> dsimp only [Op.KeepsPriorities] <;> infer_instance

section Run

theorem InOrder.tagChanged (h : pl.InOrder) : pl.tagChanged.Yields InOrder := by
  refine .branch ?_ <| .ok h
  refine .bind ?_ fun q hq => .ok hq
  refine .after fun p => .ok ?_
  have h₁ : InOrder { pl with queue := { pl.queue with
      items := Function.update pl.queue.items p ((pl.queue.items p).stamp pl.queue.version) } } :=
    h.congr id rfl rfl rfl fun i _ => ?_
  · exact h₁.incrementVersion
  rcases eq_or_ne (pl.queue.order i) p with rfl | hne
  · simp [Queue.orderPriority, QueueItem.stamp]
  · simp [Queue.orderPriority, Function.update_of_ne hne]

theorem InOrder.incrementVersionAll (h : pl.InOrder) : pl.incrementVersionAll.InOrder := by
  have h₁ : InOrder { pl with queue := { pl.queue with
      items := fun i => if i < pl.queue.length then (pl.queue.items i).stamp pl.queue.version
        else pl.queue.items i } } := h.congr id rfl rfl rfl fun i _ => ?_
  · exact h₁.incrementVersion
  simp only [Queue.orderPriority]
  split <;> rfl

variable [Qsort] [DecidableEq σ] [SongRef σ]

omit [DecidableEq σ] in
theorem Inv.clear_inOrder (h : pl.Inv) : pl.clear.Yields InOrder := by
  refine h.stop_succeeds.yields.bind ?_
  rintro pl₁ ⟨-, -, hplay⟩
  rw [forgetSongs_frame]
  exact .ok (inOrder_of_stopped hplay)

/-- **Step.** -/
theorem Inv.run_inOrder (h : pl.Inv) (hord : pl.InOrder) {op : Op σ} (hs : op.Safe pl)
    (hc : op.KeepsPriorities pl) : (op.run pl).Yields InOrder := by
  cases op with
  | clear => exact h.clear_inOrder
  | appendSong song => exact .fst (h.appendSong_inOrder hord hc song)
  | swapSongs p₁ p₂ => exact .fst (h.swapSongs_inOrder hord p₁ p₂)
  | swapSongsId id₁ id₂ =>
    exact .fst (.branch (.ok hord) <| h.swapSongs_inOrder hord _ _)
  | setPriority start stop priority => exact .fst (h.setPriority_inOrder hord start stop priority)
  | setPriorityId id priority =>
    exact .fst (.branch (.ok hord) <| h.setPriority_inOrder hord _ _ _)
  | delete song => exact .fst (h.delete_inOrder hord hs hc)
  | deleteId id => exact .fst (h.deleteId_inOrder hord hs hc)
  | deleteRange start stop => exact .fst (h.deleteRange_inOrder hord hs hc)
  | deleteSong song => exact h.deleteSong_inOrder hs hc
  | moveRange start stop dst => exact .fst (h.moveRange_inOrder hord hs)
  | moveId id dst =>
    exact .fst (.ite (fun _ => .ok hord) fun hid =>
      h.moveRange_inOrder hord (Or.resolve_left hs hid))
  | shuffle start stop => exact h.shuffle_inOrder hord hc
  | setRepeat status => exact hord.setRepeat status
  | setSingle status => exact hord.setSingle status
  | setConsume status => exact .ok hord
  | setRandom status => exact h.setRandom_inOrder hord hc
  | stop => exact h.stop_succeeds.yields.mono fun pl' hpl' => inOrder_of_stopped hpl'.2.2
  | play song => exact .fst (h.play_inOrder hord hc)
  | playId id => exact .fst (h.playId_inOrder hord hc)
  | next => exact h.next_inOrder hord
  | previous => exact hord.previous hc
  | seekSong song => exact .fst (h.seekSong_inOrder hord hc)
  | seekSongId id => exact .fst (h.seekSongId_inOrder hord hc)
  | seekCurrent relative => exact .fst (h.seekCurrent_inOrder hord hc)
  | sync => exact h.sync_inOrder hord hs hc
  | tagChanged => exact hord.tagChanged
  | incrementVersionAll => exact .ok hord.incrementVersionAll
  | getCurrentSong => exact .after fun _ => .ok hord
  | getNextSong => exact .after fun _ => .ok hord

end Run

/-- **Priorities along a run.** In every run from `playlist_init` whose operations are safe and
keep the priorities, the songs behind the current one come by descending priority whenever the
playlist plays in random mode. -/
theorem reaches_ordered [Qsort] [DecidableEq σ] [SongRef σ] {maxLength : ℕ}
    (hmax : maxLength * 4 < 4294967296) {items : ℕ → QueueItem σ} {order : ℕ → ℕ} {rand : Draws}
    {cur : ℕ} {pc : PlayerControl σ}
    (h : Reaches Op.run (fun op pl => op.Safe pl ∧ op.KeepsPriorities pl)
      (init (Queue.init maxLength items order rand cur) pc) pl)
    (hplay : pl.playing = true) (hrandom : pl.queue.random = true) :
    ∀ i j : ℕ, pl.current < i → i ≤ j → j < pl.queue.length →
      pl.queue.orderPriority j ≤ pl.queue.orderPriority i := by
  have hpl : pl.Inv ∧ pl.InOrder := by
    refine h.invariant (I := fun pl => pl.Inv ∧ pl.InOrder)
      ⟨inv_init (Queue.inv_init hmax items order rand cur) pc, inOrder_of_stopped rfl⟩ ?_
    rintro op t ⟨hs, hc⟩ ⟨ht, hord⟩
    exact (ht.run_succeeds hs).yields.and (ht.run_inOrder hord hs hc)
  have h0 := hpl.1.playing hplay
  exact fun i j hi hij hj => hpl.2 hplay hrandom j hj i hij (by omega)

theorem reaches_ordered_three_songs : ∃ pl : Playlist ℕ,
    Reaches Op.run (fun op pl => op.Safe pl ∧ op.KeepsPriorities pl)
      (numbered .play fun _ => 0) pl ∧ pl.current = 0 ∧
    pl.queue.orderPriority 1 = 7 ∧ pl.queue.orderPriority 2 = 5 ∧
    ∀ i j : ℕ, pl.current < i → i ≤ j → j < pl.queue.length →
      pl.queue.orderPriority j ≤ pl.queue.orderPriority i := by
  obtain ⟨pl, hpl, hplay, hrandom, hcur, h₁, h₂⟩ := exists_reaches Op.run
    (fun op pl => op.Safe pl ∧ op.KeepsPriorities pl) (numbered .play fun _ => 0)
    [.appendSong 10, .appendSong 11, .appendSong 12, .setRandom true, .play 0,
      .setPriority 2 3 5, .setPriority 1 2 7]
    (P := fun pl => pl.playing = true ∧ pl.queue.random = true ∧ pl.current = 0 ∧
      pl.queue.orderPriority 1 = 7 ∧ pl.queue.orderPriority 2 = 5) (by decide)
  exact ⟨pl, hpl, hcur, h₁, h₂, reaches_ordered (by decide) hpl hplay hrandom⟩

theorem append_not_ordered : ∃ pl, Reached pl ∧ pl.playing = true ∧
      pl.queue.random = true ∧ pl.current = 0 ∧ pl.queue.length = 4 ∧
      pl.queue.orderPriority 2 = 0 ∧ pl.queue.orderPriority 3 = 5 :=
  exists_reached [.appendSong 10, .appendSong 11, .appendSong 12, .setRandom true,
    .play 0, .setPriority 1 3 5, .appendSong 13] (by decide +kernel)

end Playlist

end Mpd
