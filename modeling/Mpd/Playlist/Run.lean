import Mpd.Queue.Run
import Mpd.Playlist.Playback

/-!
# The playlist: runs of commands and player events

The operations of the playlist as one type, and two results about runs from `playlist_init`,
whatever the random generator and the player do. As long as random mode is off, every operation
returns, `current` is valid while playing, and the queued song is the next one. In any mode,
every operation returns and `current` is valid while playing, if the song that is played in
random mode is deleted only when it can be replaced.
-/

namespace Mpd

open Arrangement

namespace Playlist

variable {σ : Type} {pl pl' : Playlist σ}

/-- The operations of a playlist. -/
inductive Op (σ : Type)
  | clear
  | appendSong (song : σ)
  | swapSongs (song₁ song₂ : ℕ)
  | swapSongsId (id₁ id₂ : ℕ)
  | setPriority (start stop priority : ℕ)
  | setPriorityId (id priority : ℕ)
  | delete (song : ℕ)
  | deleteId (id : ℕ)
  | deleteRange (start stop : ℕ)
  | deleteSong (song : σ)
  | moveRange (start stop : UInt32) (dst : Int32)
  | moveId (id : ℕ) (dst : Int32)
  | shuffle (start stop : ℕ)
  | setRepeat (status : Bool)
  | setSingle (status : Bool)
  | setConsume (status : Bool)
  | setRandom (status : Bool)
  | stop
  | play (song : ℤ)
  | playId (id : ℤ)
  | next
  | previous
  | seekSong (song : ℕ)
  | seekSongId (id : ℕ)
  | seekCurrent (relative : Bool)
  | sync
  | tagChanged
  | incrementVersionAll
  /-- ask for the position of the current song -/
  | getCurrentSong
  /-- ask for the position of the next song -/
  | getNextSong

def Op.run [Qsort] [DecidableEq σ] [SongRef σ] : Op σ → Playlist σ → Except Fault (Playlist σ)
  | clear, pl => pl.clear
  | appendSong song, pl => Prod.fst <$> pl.appendSong song
  | swapSongs song₁ song₂, pl => Prod.fst <$> pl.swapSongs song₁ song₂
  | swapSongsId id₁ id₂, pl => Prod.fst <$> pl.swapSongsId id₁ id₂
  | setPriority start limit priority, pl => Prod.fst <$> pl.setPriority start limit priority
  | setPriorityId id priority, pl => Prod.fst <$> pl.setPriorityId id priority
  | delete song, pl => Prod.fst <$> pl.delete song
  | deleteId id, pl => Prod.fst <$> pl.deleteId id
  | deleteRange start limit, pl => Prod.fst <$> pl.deleteRange start limit
  | deleteSong song, pl => pl.deleteSong song
  | moveRange start limit dst, pl => Prod.fst <$> pl.moveRange start limit dst
  | moveId id dst, pl => Prod.fst <$> pl.moveId id dst
  | shuffle start limit, pl => pl.shuffle start limit
  | setRepeat status, pl => pl.setRepeat status
  | setSingle status, pl => pl.setSingle status
  | setConsume status, pl => .ok (pl.setConsume status)
  | setRandom status, pl => pl.setRandom status
  | stop, pl => pl.stop
  | play song, pl => Prod.fst <$> pl.play song
  | playId id, pl => Prod.fst <$> pl.playId id
  | next, pl => pl.next
  | previous, pl => pl.previous
  | seekSong song, pl => Prod.fst <$> pl.seekSong song
  | seekSongId id, pl => Prod.fst <$> pl.seekSongId id
  | seekCurrent relative, pl => Prod.fst <$> pl.seekCurrent relative
  | sync, pl => pl.sync
  | tagChanged, pl => pl.tagChanged
  | incrementVersionAll, pl => .ok pl.incrementVersionAll
  | getCurrentSong, pl => (fun _ => pl) <$> pl.getCurrentSong
  | getNextSong, pl => (fun _ => pl) <$> pl.getNextSong

/-- Moves stay within the queue. -/
def Op.MovesInRange : Op σ → Playlist σ → Prop
  | moveRange start limit dst, pl => pl.MoveInRange start limit dst
  | moveId id dst, pl => pl.MoveIdInRange id dst
  | _, _ => True

/-- Also, if the song that is played in random mode is deleted, another one can be played. -/
def Op.Safe : Op σ → Playlist σ → Prop
  | delete song, pl => pl.MayDelete (fun p => p = song) 1
  | deleteId id, pl => pl.MayDelete (fun p => (p : ℤ) = pl.queue.positionOfId id) 1
  | deleteRange start limit, pl =>
    pl.MayDelete (fun p => start ≤ p ∧ p < min limit pl.queue.length)
      (min limit pl.queue.length - start)
  | deleteSong song, pl =>
    pl.MayDelete (fun p => p < pl.queue.length ∧ (pl.queue.items p).song = song) pl.queue.length
  | sync, pl => pl.MaySync
  | op, pl => op.MovesInRange pl

/-! ### The conditions can be checked -/

instance (pl : Playlist σ) (D : ℕ → Prop) [DecidablePred D] (looks : ℕ) :
    Decidable (pl.Replaceable D looks) :=
  inferInstanceAs (Decidable (_ ∧ (_ ∨ _)))

instance (pl : Playlist σ) (D : ℕ → Prop) [DecidablePred D] (looks : ℕ) :
    Decidable (pl.MayDelete D looks) :=
  inferInstanceAs (Decidable (_ → _))

instance (pl : Playlist σ) : Decidable pl.MaySync :=
  inferInstanceAs (Decidable (_ → _))

instance (op : Op σ) (pl : Playlist σ) : Decidable (op.MovesInRange pl) := by
  rcases op <;> dsimp only [Op.MovesInRange] <;> infer_instance

instance [DecidableEq σ] (op : Op σ) (pl : Playlist σ) : Decidable (op.Safe pl) := by
  rcases op <;> dsimp only [Op.Safe] <;> infer_instance

/-! ### Steps -/

/-- **Step.** A safe operation on a consistent playlist returns a consistent playlist. -/
theorem Inv.run_succeeds [Qsort] [DecidableEq σ] [SongRef σ] (h : pl.Inv) {op : Op σ}
    (hs : op.Safe pl) : (op.run pl).Succeeds Inv := by
  cases op with
  | clear => exact h.clear_succeeds
  | appendSong song => exact .fst ((h.appendSong_succeeds song).mono fun r hr => hr.1)
  | swapSongs p₁ p₂ => exact .fst ((h.swapSongs_succeeds p₁ p₂).mono fun r hr => hr.1)
  | swapSongsId id₁ id₂ => exact .fst (h.swapSongsId_succeeds id₁ id₂)
  | setPriority start stop priority =>
    exact .fst ((h.setPriority_succeeds start stop priority).mono fun r hr => hr.1)
  | setPriorityId id priority => exact .fst (h.setPriorityId_succeeds id priority)
  | delete song => exact .fst ((h.delete_inv hs).mono fun r hr => hr.1)
  | deleteId id => exact .fst (h.deleteId_succeeds hs)
  | deleteRange start stop => exact .fst ((h.deleteRange_succeeds hs).mono fun r hr => hr.1)
  | deleteSong song => exact h.deleteSong_succeeds hs
  | moveRange start stop dst => exact .fst ((h.moveRange_succeeds hs).mono fun r hr => hr.1)
  | moveId id dst => exact .fst (h.moveId_succeeds hs)
  | shuffle start stop => exact (h.shuffle_succeeds start stop).mono fun pl' hpl' => hpl'.1
  | setRepeat status => exact (h.setRepeat_succeeds status).mono fun pl' hpl' => hpl'.1
  | setSingle status => exact (h.setSingle_succeeds status).mono fun pl' hpl' => hpl'.1
  | setConsume status => exact .ok (h.setConsume status)
  | setRandom status => exact (h.setRandom_succeeds status).mono fun pl' hpl' => hpl'.1
  | stop => exact h.stop_succeeds.mono fun pl' hpl' => hpl'.1
  | play song => exact .fst (h.play_succeeds song)
  | playId id => exact .fst (h.playId_succeeds id)
  | next => exact h.next_succeeds.mono fun pl' hpl' => hpl'.1
  | previous => exact h.previous_succeeds
  | seekSong song => exact .fst ((h.seekSong_succeeds song).mono fun _ hr => hr.1)
  | seekSongId id => exact .fst (h.seekSongId_succeeds id)
  | seekCurrent relative => exact .fst (h.seekCurrent_succeeds relative)
  | sync => exact h.sync_succeeds hs
  | tagChanged => exact h.tagChanged_succeeds
  | incrementVersionAll => exact .ok h.incrementVersionAll
  | getCurrentSong => exact h.getCurrentSong_succeeds.bind fun _ _ => .ok h
  | getNextSong => exact h.getNextSong_succeeds.bind fun _ _ => .ok h

theorem Op.safe_of_normal {op : Op σ} (hrandom : pl.queue.random = false)
    (hmoves : op.MovesInRange pl) : op.Safe pl := by
  have hmay : ∀ D looks, pl.MayDelete D looks := fun D looks _ hr =>
    absurd hr (by simp [hrandom])
  have hsync : pl.MaySync := fun _ _ _ _ _ hr => absurd hr (by simp [seen, hrandom])
  cases op <;> first | exact hmay _ _ | exact hsync | exact hmoves

theorem inv_init {queue : Queue σ} (hq : queue.Inv) (pc : PlayerControl σ) :
    (init queue pc).Inv where
  queue := hq
  current_ge := le_rfl
  current_lt := show (-1 : ℤ) < queue.length by omega
  updates := fun _ hu => nomatch hu
  playing := fun hp => absurd hp (by simp [init])
  queued_ge := le_rfl
  queued_lt := show (-1 : ℤ) < queue.length by omega
  stopped := fun _ => rfl

/-! ### Runs -/

/-- Songs given by their numbers, all of them in the database. -/
instance : SongRef ℕ := ⟨fun _ => true⟩

def numbered (state : PlayerState) (rand : Draws) : Playlist ℕ :=
  init (Queue.init 4 (fun _ => ⟨0, 0, 0, 0⟩) id rand 0) ⟨fun _ => ⟨state, none, .noError⟩, []⟩

theorem inv_numbered (state : PlayerState) (rand : Draws) : (numbered state rand).Inv :=
  inv_init (Queue.inv_init (by decide) _ _ _ _) _

theorem Inv.reaches [Qsort] [DecidableEq σ] [SongRef σ] (h : pl.Inv)
    (hr : Reaches Op.run Op.Safe pl pl') : pl'.Inv :=
  hr.invariant h fun _ _ hs hpl => Except.Succeeds.yields (hpl.run_succeeds hs)

/-- Reached by safe operations from an empty playlist, while the player plays. -/
abbrev Reached (pl : Playlist ℕ) : Prop :=
  Reaches Op.run Op.Safe (numbered .play fun _ => 0) pl

theorem Reached.inv {pl : Playlist ℕ} (h : Reached pl) : pl.Inv :=
  (inv_numbered _ _).reaches h

theorem exists_reached (l : List (Op ℕ)) {P : Playlist ℕ → Prop}
    (h : ∃ pl ∈ execute Op.run Op.Safe l (numbered .play fun _ => 0), P pl) :
    ∃ pl, Reached pl ∧ P pl :=
  exists_reaches _ _ _ l h

/-- **Normal mode.** In every run from `playlist_init` in which random mode is off and moves stay
within the queue: while playing, the queue is not empty and `current` is valid; every operation
returns, so the assertions of `playlist_update_queued_song` are met; and each time the queued song
was updated, it was set to what `queue_next_order` says. -/
theorem reaches_normal [Qsort] [DecidableEq σ] [SongRef σ] {maxLength : ℕ}
    (hmax : maxLength * 4 < 4294967296) {items : ℕ → QueueItem σ} {order : ℕ → ℕ} {rand : Draws}
    {cur : ℕ} {pc : PlayerControl σ}
    (h : Reaches Op.run (fun op pl => pl.queue.random = false ∧ op.MovesInRange pl)
      (init (Queue.init maxLength items order rand cur) pc) pl) :
    (pl.playing = true →
      pl.queue.isEmpty = false ∧ 0 ≤ pl.current ∧ pl.current < pl.queue.length) ∧
    (∀ op : Op σ, pl.queue.random = false → op.MovesInRange pl → ∃ pl', op.run pl = .ok pl') ∧
    ∀ u ∈ pl.updates, u.1 = u.2 := by
  have hpl : pl.Inv := (inv_init (Queue.inv_init hmax items order rand cur) pc).reaches
    (h.mono fun _ _ ha => Op.safe_of_normal ha.1 ha.2)
  refine ⟨fun hplay => ?_, fun op hrandom hmoves => ?_, hpl.updates⟩
  · have h0 := hpl.playing hplay
    have hlt := hpl.current_lt
    exact ⟨beq_eq_false_iff_ne.mpr (by omega), h0, hlt⟩
  · obtain ⟨pl', hrun, -⟩ := hpl.run_succeeds (Op.safe_of_normal hrandom hmoves)
    exact ⟨pl', hrun⟩

theorem reaches_normal_two_songs : ∃ pl : Playlist ℕ,
    Reaches Op.run (fun op pl => pl.queue.random = false ∧ op.MovesInRange pl)
      (numbered .play fun _ => 0) pl ∧
    pl.playing = true ∧ pl.updates.length = 3 ∧ 0 ≤ pl.current ∧ pl.current < pl.queue.length ∧
    ∀ u ∈ pl.updates, u.1 = u.2 := by
  obtain ⟨pl, hpl, hplay, hlen⟩ := exists_reaches Op.run
    (fun op pl => pl.queue.random = false ∧ op.MovesInRange pl) (numbered .play fun _ => 0)
    [.appendSong 10, .appendSong 11, .setRepeat true, .play 0, .sync, .setConsume true, .sync]
    (P := fun pl => pl.playing = true ∧ pl.updates.length = 3) (by decide)
  obtain ⟨hcur, -, hupdates⟩ := reaches_normal (by decide) hpl
  exact ⟨pl, hpl, hplay, hlen, (hcur hplay).2.1, (hcur hplay).2.2, hupdates⟩

/-- **Any mode.** In every run from `playlist_init` of safe operations, the next safe operation
returns, so no order number outside the queue is used, and `current` is valid while playing. -/
theorem reaches_safe [Qsort] [DecidableEq σ] [SongRef σ] {maxLength : ℕ}
    (hmax : maxLength * 4 < 4294967296) {items : ℕ → QueueItem σ} {order : ℕ → ℕ} {rand : Draws}
    {cur : ℕ} {pc : PlayerControl σ}
    (h : Reaches Op.run Op.Safe (init (Queue.init maxLength items order rand cur) pc) pl) :
    (pl.playing = true → 0 ≤ pl.current ∧ pl.current < pl.queue.length) ∧
    ∀ op : Op σ, op.Safe pl → ∃ pl', op.run pl = .ok pl' := by
  have hpl : pl.Inv := (inv_init (Queue.inv_init hmax items order rand cur) pc).reaches h
  refine ⟨fun hplay => ⟨hpl.playing hplay, hpl.current_lt⟩, fun op hs => ?_⟩
  obtain ⟨pl', hrun, -⟩ := hpl.run_succeeds hs
  exact ⟨pl', hrun⟩

theorem reaches_safe_three_songs : ∃ pl : Playlist ℕ,
    Reaches Op.run Op.Safe (numbered .play fun k => k) pl ∧ pl.queue.random = true ∧
      pl.queue.length = 2 ∧ 0 ≤ pl.current ∧ pl.current < pl.queue.length := by
  obtain ⟨pl, hpl, hplay, hrandom, hlen⟩ := exists_reaches Op.run Op.Safe
    (numbered .play fun k => k) [.appendSong 10, .appendSong 11, .appendSong 12, .setRandom true,
      .play 1, .sync, .deleteRange 1 2]
    (P := fun pl => pl.playing = true ∧ pl.queue.random = true ∧ pl.queue.length = 2)
    (by decide +kernel)
  exact ⟨pl, hpl, hrandom, hlen, (reaches_safe (by decide) hpl).1 hplay⟩

theorem delete_only_song_fault : ∃ pl : Playlist ℕ,
    Reaches Op.run Op.MovesInRange (numbered .play fun _ => 0) pl ∧ pl.playing = true ∧
      pl.current = 0 ∧ pl.queue.length = 1 ∧
      (Op.delete 0).run pl = .error (.order 4294967295) :=
  exists_reaches _ _ _ [.appendSong 10, .setRandom true, .play 0] (by decide)

end Playlist

end Mpd
