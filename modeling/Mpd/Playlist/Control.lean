import Mpd.Playlist.Edit

/-!
# The playlist: playback control and player events

`playlist_control.c`, and the event handler of `playlist.c` that the player thread triggers
whenever it wants a new song or has stopped. The seek time itself is not followed up.
-/

namespace Mpd

namespace Playlist

variable {σ : Type} [Qsort] [DecidableEq σ] (pl : Playlist σ)

/-! ### Starting playback -/

def startAt (order : ℤ) : Except Fault (Playlist σ × Status) := do
  let pl ← playOrder { pl with stopOnError := false, errorCount := 0 } order
  pure (pl, .success)

def songOrder (song : ℤ) (i : ℕ) : Except Fault ℕ :=
  if 0 ≤ song then pl.queue.positionToOrder (unsigned song) else .ok i

def playSong (song : ℤ) (i : ℕ) : Except Fault (Playlist σ × Status) :=
  if pl.queue.random then do
    let i ← pl.songOrder song i
    let current := if pl.playing then pl.current else 0
    startAt { pl with current := current, queue := pl.queue.swapOrder i (unsigned current) } current
  else pl.startAt i

def play (song : ℤ) : Except Fault (Playlist σ × Status) :=
  let pl := pl.send .clearError
  if song = -1 then
    if pl.queue.isEmpty then .ok (pl, .success)
    else if pl.playing then
      -- already playing: unpause playback, just in case it was paused
      .ok (pl.send (.setPause false), .success)
    else pl.playSong song (if 0 ≤ pl.current then unsigned pl.current else 0)
  else if pl.queue.validPosition (unsigned song) then pl.playSong song (unsigned song)
  else .ok (pl, .badRange)

def playId (id : ℤ) : Except Fault (Playlist σ × Status) :=
  if id = -1 then pl.play id
  else
    let song := pl.queue.positionOfId (unsigned id)
    if song < 0 then .ok (pl, .noSuchSong) else pl.play song

def previous : Except Fault (Playlist σ) :=
  if pl.playing then
    if 0 < pl.current then pl.playOrder (pl.current - 1)
    else if pl.queue.repeat_ then pl.playOrder (pl.queue.length - 1)
    else pl.playOrder pl.current
  else .ok pl

/-! ### Seeking -/

def changeSong (i : ℕ) : Playlist σ :=
  if ¬ pl.playing ∨ unsigned pl.current ≠ i then { pl with playing := true, current := i }
  else pl

def seekOrder (i : ℕ) : Except Fault (Playlist σ × Status) := do
  let target ← pl.queue.getOrder i
  let pl ← updateQueuedSong { pl.send (.seek target) with queued := -1 } none
  pure (pl, .success)

def seekSong (song : ℕ) : Except Fault (Playlist σ × Status) :=
  if pl.queue.validPosition song then do
    let _ ← pl.getQueuedSong
    let i ← pl.queue.orderOf song
    let pl := { pl.send .clearError with stopOnError := true, errorCount := 0 }
    (pl.changeSong i).seekOrder i
  else .ok (pl, .badRange)

def seekSongId (id : ℕ) : Except Fault (Playlist σ × Status) :=
  let song := pl.queue.positionOfId id
  if song < 0 then .ok (pl, .noSuchSong) else pl.seekSong song.toNat

def seekCurrent (relative : Bool) : Except Fault (Playlist σ × Status) :=
  if pl.playing then
    if relative then
      let state := pl.pc.view.state
      let pl := pl.seen
      if state ≠ .play ∧ state ≠ .pause then .ok (pl, .notPlaying)
      else pl.seekSong (unsigned pl.current)
    else pl.seekSong (unsigned pl.current)
  else .ok (pl, .notPlaying)

/-! ### Going on to the next song -/

variable [SongRef σ]

def consumeSong (order : ℤ) : Except Fault (Playlist σ) :=
  if pl.queue.consume then do
    let position ← pl.queue.orderToPosition (unsigned order)
    let (pl, _) ← pl.delete position
    pure pl
  else .ok pl

def advance : Except Fault (Playlist σ) :=
  let nextOrder := pl.queue.nextOrder (unsigned pl.current)
  if nextOrder < 0 then do
    -- no song after this one: stop playback, reset "current song"
    let pl ← pl.stop
    pure { pl with current := -1 }
  else if nextOrder = 0 ∧ pl.queue.random then do
    -- repeat mode: shuffle, so that the user hears the songs in a different order
    let queue ← pl.queue.shuffleOrder
    playOrder { pl with queue := queue } nextOrder
  else pl.playOrder nextOrder

def next : Except Fault (Playlist σ) :=
  if pl.playing then do
    let current := pl.current
    let pl ← advance { pl with stopOnError := false }
    pl.consumeSong current
  else .ok pl

/-! ### Player events -/

def songStarted : Except Fault (Playlist σ) :=
  consumeSong { pl with current := pl.queued, queued := -1 } pl.current

def resumePlayback : Except Fault (Playlist σ) :=
  let error : PlayerError := pl.pc.view.error
  let pl := pl.seen
  let pl := { pl with
    errorCount := if error = PlayerError.noError then 0 else pl.errorCount + 1 }
  if (pl.stopOnError ∧ error ≠ .noError) ∨ error = .audio ∨ error = .system ∨
      pl.queue.length ≤ pl.errorCount then
    -- too many errors, or critical error
    pl.stop
  else pl.next

def syncQueued : Except Fault (Playlist σ) :=
  let nextSong := pl.pc.view.nextSong
  let pl := pl.seen
  if nextSong = none ∧ pl.queued < 0 then pl.updateQueuedSong none else .ok pl

def syncStarted (nextSong : Option σ) : Except Fault (Playlist σ) :=
  if nextSong = none ∧ pl.queued ≠ -1 then pl.songStarted else .ok pl

def sync : Except Fault (Playlist σ) :=
  if pl.playing then
    let view := pl.pc.view
    let pl := pl.seen
    if view.state = .stop then pl.resumePlayback
    else do
      let pl ← pl.syncStarted view.nextSong
      pl.syncQueued
  else .ok pl

end Playlist

end Mpd
