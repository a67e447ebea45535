import Mpd.Playlist.Basic

/-!
# The playlist: editing

`playlist_edit.c`: adding, removing and reordering songs in the queue. Every edit remembers the
queued song, changes the queue, repairs `current`, increments the version and updates the
queued song.
-/

namespace Mpd

variable {σ : Type}

/-- `abs` of an `int`. -/
def cAbs (x : ℤ) : ℤ :=
  if x = -2147483648 then x else x.natAbs

namespace Playlist

variable [Qsort] [DecidableEq σ] (pl : Playlist σ)

/-- How every edit ends. -/
def finishEdit (queued : Option σ) : Except Fault (Playlist σ × Status) := do
  let pl ← pl.incrementVersion.updateQueuedSong queued
  pure (pl, .success)

/-! ### Adding songs -/

/-- The first order number behind the queued song, or the current one. -/
def remainingStart : ℕ :=
  if 0 ≤ pl.queued then unsigned (pl.queued + 1) else unsigned (pl.current + 1)

/-- The new song is put among those that are still to be played. -/
def shuffleAppended : Playlist σ :=
  if pl.remainingStart < pl.queue.length then
    { pl with queue := pl.queue.shuffleOrderLast pl.remainingStart pl.queue.length }
  else pl

/-- `playlist_append_song`. -/
def appendSong (song : σ) : Except Fault (Playlist σ × Status) :=
  if pl.queue.isFull then .ok (pl, .tooLarge)
  else do
    let queued ← pl.getQueuedSong
    let (queue, _) ← pl.queue.append song 0
    let pl := { pl with queue := queue }
    let pl := if pl.queue.random then pl.shuffleAppended else pl
    pl.finishEdit queued

/-! ### Exchanging songs -/

/-- The current song stays the current one. -/
def swapCurrent (song₁ song₂ : ℕ) : Except Fault (Playlist σ) :=
  if pl.queue.random then do
    let order₁ ← pl.queue.positionToOrder song₁
    let order₂ ← pl.queue.positionToOrder song₂
    pure { pl with queue := pl.queue.swapOrder order₁ order₂ }
  else if pl.current = song₁ then .ok { pl with current := song₂ }
  else if pl.current = song₂ then .ok { pl with current := song₁ }
  else .ok pl

/-- `playlist_swap_songs`. -/
def swapSongs (song₁ song₂ : ℕ) : Except Fault (Playlist σ × Status) :=
  if pl.queue.validPosition song₁ && pl.queue.validPosition song₂ then do
    let queued ← pl.getQueuedSong
    let pl ← swapCurrent { pl with queue := pl.queue.swap song₁ song₂ } song₁ song₂
    pl.finishEdit queued
  else .ok (pl, .badRange)

/-- `playlist_swap_songs_id`. -/
def swapSongsId (id₁ id₂ : ℕ) : Except Fault (Playlist σ × Status) :=
  let song₁ := pl.queue.positionOfId id₁
  let song₂ := pl.queue.positionOfId id₂
  if song₁ < 0 ∨ song₂ < 0 then .ok (pl, .noSuchSong)
  else pl.swapSongs song₁.toNat song₂.toNat

/-! ### Priorities -/

/-- `current` follows its song. -/
def restoreCurrent : Option ℕ → Except Fault (Playlist σ)
  | some position => do
    let order ← pl.queue.positionToOrder position
    pure { pl with current := order }
  | none => .ok pl

/-- The part of `playlist_set_priority` behind its checks. -/
def applyPriority (start stop priority : ℕ) :
    Except Fault (Playlist σ × Status) := do
  -- remember "current" and "queued"
  let currentPosition ← pl.queue.rememberPosition pl.current
  let queued ← pl.getQueuedSong
  let (queue, _) ← pl.queue.setPriorityRange start stop priority pl.current
  let pl := { pl with queue := queue }
  -- restore "current" and choose a new "queued"
  let pl ← pl.restoreCurrent currentPosition
  pl.finishEdit queued

/-- `playlist_set_priority`. -/
def setPriority (start stop priority : ℕ) : Except Fault (Playlist σ × Status) :=
  if pl.queue.length ≤ start then .ok (pl, .badRange)
  else
    let stop := min stop pl.queue.length
    if stop ≤ start then .ok (pl, .success)
    else pl.applyPriority start stop priority

/-- `playlist_set_priority_id`. -/
def setPriorityId (id priority : ℕ) : Except Fault (Playlist σ × Status) :=
  let song := pl.queue.positionOfId id
  if song < 0 then .ok (pl, .noSuchSong)
  else pl.setPriority song.toNat (song.toNat + 1) priority

/-! ### Removing songs -/

/-- The song that is played is to be deleted: another one is played, or none. -/
def replaceCurrent (songOrder : ℕ) : Except Fault (Playlist σ) :=
  let paused := pl.pc.view.state = .pause
  let pl := pl.seen
  let next := pl.queue.nextOrder (unsigned pl.current)
  let pl := { pl with current := if next = songOrder then -1 else next }
  if 0 ≤ pl.current ∧ ¬ paused then
    -- play the song after the deleted one
    pl.playOrder pl.current
  else do
    -- no songs left to play, stop playback completely
    let pl ← pl.stop
    pure { pl.send .stop with playing := false }

/-- No song that is deleted stays the current one. -/
def leaveSong (songOrder : ℕ) (queued : Option σ) :
    Except Fault (Playlist σ × Option σ) :=
  if pl.playing ∧ pl.current = songOrder then do
    let pl ← pl.replaceCurrent songOrder
    pure (pl, none)
  else if pl.current = songOrder then
    -- there's a "current song" but we're not playing currently - clear "current"
    .ok ({ pl with current := -1 }, queued)
  else .ok (pl, queued)

variable [SongRef σ]

/-- The player is told of a song that is not in the database. -/
def forgetSong (song : σ) : Playlist σ :=
  if SongRef.inDatabase song then pl else pl.send (.songDeleted song)

/-- The song is deleted from the queue, and `current` is corrected. -/
def removeSong (song songOrder : ℕ) : Except Fault (Playlist σ) := do
  let deleted ← pl.queue.get song
  let pl := pl.forgetSong deleted
  let queue ← pl.queue.delete song
  pure { pl with
    queue := queue
    current := if (songOrder : ℤ) < pl.current then pl.current - 1 else pl.current }

/-- `playlist_delete_internal`. -/
def deleteInternal (song : ℕ) (queued : Option σ) :
    Except Fault (Playlist σ × Option σ) := do
  let songOrder ← pl.queue.positionToOrder song
  let (pl, queued) ← pl.leaveSong songOrder queued
  let pl ← pl.removeSong song songOrder
  pure (pl, queued)

/-- `playlist_delete`. -/
def delete (song : ℕ) : Except Fault (Playlist σ × Status) :=
  if pl.queue.length ≤ song then .ok (pl, .badRange)
  else do
    let queued ← pl.getQueuedSong
    let (pl, queued) ← pl.deleteInternal song queued
    pl.finishEdit queued

/-- The loop of `playlist_delete_range`, from the last song down. -/
def deleteDown (start : ℕ) : ℕ → Playlist σ → Option σ → Except Fault (Playlist σ × Option σ)
  | 0, pl, queued => .ok (pl, queued)
  | n + 1, pl, queued => do
    let (pl, queued) ← pl.deleteInternal (start + n) queued
    deleteDown start n pl queued

/-- `playlist_delete_range`. -/
def deleteRange (start stop : ℕ) : Except Fault (Playlist σ × Status) :=
  if pl.queue.length ≤ start then .ok (pl, .badRange)
  else
    let stop := min stop pl.queue.length
    if stop ≤ start then .ok (pl, .success)
    else do
      let queued ← pl.getQueuedSong
      let (pl, queued) ← deleteDown start (stop - start) pl queued
      pl.finishEdit queued

/-- `playlist_delete_id`. -/
def deleteId (id : ℕ) : Except Fault (Playlist σ × Status) :=
  let song := pl.queue.positionOfId id
  if song < 0 then .ok (pl, .noSuchSong) else pl.delete song.toNat

/-- The loop of `playlist_delete_song`. -/
def deleteSongBelow (song : σ) : ℕ → Playlist σ → Except Fault (Playlist σ)
  | 0, pl => .ok pl
  | n + 1, pl => do
    let found ← pl.queue.get n
    if found = song then do
      let (pl, _) ← pl.delete n
      deleteSongBelow song n pl
    else deleteSongBelow song n pl

/-- `playlist_delete_song`. -/
def deleteSong (song : σ) : Except Fault (Playlist σ) := do
  let pl ← deleteSongBelow song pl.queue.length pl
  pure (pl.send (.songDeleted song))

/-- The loop of `playlist_clear`. -/
def forgetSongs : Playlist σ :=
  forUp 0 pl.queue.length (fun i pl => pl.forgetSong (pl.queue.items i).song) pl

/-- `playlist_clear`. -/
def clear : Except Fault (Playlist σ) := do
  let pl ← pl.stop
  let pl := pl.forgetSongs
  pure (incrementVersion { pl with queue := pl.queue.clear, current := -1 })

omit [SongRef σ]

/-! ### Moving songs -/

/-- A negative `dst` is an offset from the current song. -/
def moveTarget (start : ℕ) (dst currentSong : ℤ) : ℤ :=
  if dst < 0 ∧ 0 ≤ pl.current then
    let target : ℤ := (unsigned (currentSong + cAbs dst) % pl.queue.length : ℕ)
    if start < target then target - 1 else target
  else dst

/-- Where `current` goes in normal mode. -/
def moveCurrent (current start stop dst : ℤ) : ℤ :=
  if start ≤ current ∧ current < stop then current + (dst - start)
  else if stop ≤ current ∧ current ≤ dst then current - (stop - start)
  else if dst ≤ current ∧ current < start then current + (stop - start)
  else current

/-- The checks of `playlist_move_range`. -/
def moveBadRange (start stop : ℕ) (dst : ℤ) : Bool :=
  !pl.queue.validPosition start || !pl.queue.validPosition (unsigned (stop - 1)) ||
    (decide (0 ≤ dst) && decide (pl.queue.length ≤ unsigned (dst + stop - start - 1))) ||
    (decide (dst < 0) && decide (pl.queue.length < cAbs dst))

/-- The part of `playlist_move_range` behind its checks. -/
def performMove (start stop : ℕ) (dst : ℤ) (queued : Option σ) :
    Except Fault (Playlist σ × Status) := do
  let queue ← pl.queue.moveRange start stop (unsigned dst)
  let pl := { pl with
    queue := queue
    current := if queue.random then pl.current else moveCurrent pl.current start stop dst }
  pl.finishEdit queued

/-- `playlist_move_range`. -/
def moveRange (start stop : UInt32) (dst : Int32) :
    Except Fault (Playlist σ × Status) :=
  let start := start.toNat
  let stop := stop.toNat
  let dst := dst.toInt
  if pl.moveBadRange start stop dst then .ok (pl, .badRange)
  else if start = dst then .ok (pl, .success)
  else do
    let queued ← pl.getQueuedSong
    let currentSong ← pl.getCurrentSong
    if dst < 0 ∧ 0 ≤ pl.current ∧ start ≤ currentSong ∧ currentSong < stop then
      -- no-op, can't be moved to offset of itself
      pure (pl, .success)
    else pl.performMove start stop (pl.moveTarget start dst currentSong) queued

/-- `playlist_move_id`. -/
def moveId (id : ℕ) (dst : Int32) : Except Fault (Playlist σ × Status) :=
  let song := pl.queue.positionOfId id
  if song < 0 then .ok (pl, .noSuchSong)
  else pl.moveRange (.ofNat song.toNat) (.ofNat (song.toNat + 1)) dst

/-! ### Shuffling -/

/-- The current song is put first and left out. -/
def shuffleStart (start stop : ℕ) : Except Fault (Playlist σ × ℕ) :=
  if pl.playing ∧ 0 ≤ pl.current then do
    let currentPosition ← pl.queue.orderToPosition (unsigned pl.current)
    if start ≤ currentPosition ∧ currentPosition < stop then do
      let pl := { pl with queue := pl.queue.swap start currentPosition }
      let current ← pl.queue.orderOf start
      pure ({ pl with current := current }, start + 1)
    else pure (pl, start)
  else .ok ({ pl with current := -1 }, start)

/-- `playlist_shuffle`. -/
def shuffle (start stop : ℕ) : Except Fault (Playlist σ) :=
  let stop := min stop pl.queue.length
  -- needs at least two entries
  if stop ≤ unsigned (start + 1) then .ok pl
  else do
    let queued ← pl.getQueuedSong
    let (pl, start) ← pl.shuffleStart start stop
    let (pl, _) ← finishEdit { pl with queue := pl.queue.shuffleRange start stop } queued
    pure pl

end Playlist

end Mpd
