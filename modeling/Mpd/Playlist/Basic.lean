import Mpd.Queue.Order

/-!
# The playlist: current and queued song

`struct playlist` and the core of `playlist.c`: the song being played (`current`) and the song
handed to the player in advance (`queued`), both order numbers of the queue or `-1`.

The playlist talks to the player thread through `struct player_control`. What it *sends* is
recorded (`requests`, newest first). What it *sees* — the player's state, whether the player
still holds a next song, its error — is whatever the player thread has stored by then: each
look takes the next entry of an arbitrary sequence of views, so that what holds for every
playlist holds for every behaviour of the player.

Idle notifications and log messages have no counterpart.
-/

namespace Mpd

variable {σ : Type}

/-! ### The player, as the playlist sees it -/

inductive PlayerState
  | stop
  | pause
  | play
  deriving DecidableEq, Repr

inductive PlayerError
  | noError
  | fileNotFound
  | file
  | audio
  | system
  | unknownType
  | pending
  deriving DecidableEq, Repr

/-- What one look at the player control shows. -/
structure PlayerView (σ : Type) where
  state : PlayerState
  nextSong : Option σ
  error : PlayerError

inductive PlayerRequest (σ : Type)
  | play (song : σ)
  | enqueueSong (song : σ)
  | cancel
  | stop
  | setPause (pause : Bool)
  | setBorderPause (borderPause : Bool)
  | seek (song : σ)
  | clearError
  | songDeleted (song : σ)

/-- `struct player_control` between the two threads. -/
structure PlayerControl (σ : Type) where
  /-- what the playlist will see, one entry for each look -/
  views : ℕ → PlayerView σ
  /-- what the playlist has asked for, the latest request first -/
  requests : List (PlayerRequest σ)

namespace PlayerControl

def send (pc : PlayerControl σ) (request : PlayerRequest σ) : PlayerControl σ :=
  { pc with requests := request :: pc.requests }

def view (pc : PlayerControl σ) : PlayerView σ :=
  pc.views 0

def seen (pc : PlayerControl σ) : PlayerControl σ :=
  { pc with views := fun k => pc.views (k + 1) }

end PlayerControl

/-- A type of songs: a song is a pointer, and `song_in_database` tells whether it belongs to
the database. -/
class SongRef (σ : Type) where
  inDatabase : σ → Bool

inductive Status
  | success
  | noSuchSong
  | badRange
  | notPlaying
  | tooLarge
  deriving DecidableEq, Repr

/-! ### The playlist -/

/-- `struct playlist`, with the player control that is passed along with it everywhere. -/
structure Playlist (σ : Type) where
  /-- the song queue: it contains the "real" playlist -/
  queue : Queue σ
  /-- is the player playing (or should it be)? -/
  playing : Bool
  /-- if true, any error is fatal; set while seeking -/
  stopOnError : Bool
  /-- number of errors since playback was started -/
  errorCount : ℕ
  /-- the song that is played, or will be on "play": an order number, or `-1` -/
  current : ℤ
  /-- the song to be played next, already known to the player: an order number, or `-1` -/
  queued : ℤ
  /-- the player -/
  pc : PlayerControl σ
  /-- history variable (not in the source): for each return of `playlist_update_queued_song`
  while playing in normal mode, `queued` and what `queue_next_order` says of `current`, the
  latest first -/
  updates : List (ℤ × ℤ)

namespace Playlist

def init (queue : Queue σ) (pc : PlayerControl σ) : Playlist σ where
  queue := queue
  playing := false
  stopOnError := false
  errorCount := 0
  current := -1
  queued := -1
  pc := pc
  updates := []

variable (pl : Playlist σ)

def send (request : PlayerRequest σ) : Playlist σ :=
  { pl with pc := pl.pc.send request }

def seen : Playlist σ :=
  { pl with pc := pl.pc.seen }

def incrementVersion : Playlist σ :=
  { pl with queue := pl.queue.incrementVersion }

def incrementVersionAll : Playlist σ :=
  { pl with queue := pl.queue.modifyAll }

def tagChanged : Except Fault (Playlist σ) :=
  if pl.playing then do
    let queue ← pl.queue.modify (unsigned pl.current)
    pure { pl with queue := queue }
  else .ok pl

def getQueuedSong : Except Fault (Option σ) :=
  if pl.playing ∧ 0 ≤ pl.queued then some <$> pl.queue.getOrder (unsigned pl.queued)
  else .ok none

def queueSongOrder (order : ℕ) : Except Fault (Playlist σ) := do
  let song ← pl.queue.getOrder order
  pure ({ pl with queued := order }.send (.enqueueSong song))

def playOrder (order : ℤ) : Except Fault (Playlist σ) := do
  let song ← pl.queue.getOrder (unsigned order)
  pure ({ pl with playing := true, queued := -1, current := order }.send (.play song))

def getCurrentSong : Except Fault ℤ :=
  if 0 ≤ pl.current then
    (fun position : ℕ => (position : ℤ)) <$> pl.queue.orderToPosition (unsigned pl.current)
  else .ok (-1)

def getNextSong : Except Fault ℤ :=
  let position (order : ℤ) : Except Fault ℤ :=
    (fun position : ℕ => (position : ℤ)) <$> pl.queue.orderToPosition (unsigned order)
  if 0 ≤ pl.current then
    if pl.queue.single && pl.queue.repeat_ then position pl.current
    else if pl.current + 1 < pl.queue.length then position (pl.current + 1)
    else if pl.queue.repeat_ then position 0
    else .ok (-1)
  else .ok (-1)

section Shuffle

variable [Qsort]

def reshuffle : Except Fault (Playlist σ) := do
  let currentPosition ← pl.queue.orderToPosition (unsigned pl.current)
  let queue ← pl.queue.shuffleOrder
  let current ← queue.positionToOrder currentPosition
  pure { pl with queue := queue, current := current }

def stop : Except Fault (Playlist σ) :=
  if pl.playing then
    let pl := { pl with queued := -1, playing := false }.send .stop
    if pl.queue.random then pl.reshuffle else .ok pl
  else .ok pl

def restoreOrder : Except Fault (Playlist σ) := do
  let current ← pl.getCurrentSong
  pure { pl with current := current, queue := pl.queue.restoreOrder }

variable [DecidableEq σ]

def nextSongAt (nextOrder : ℤ) : Except Fault (Option σ) :=
  if 0 ≤ nextOrder then some <$> pl.queue.getOrder (unsigned nextOrder) else .ok none

def cancelQueued (prev nextSong : Option σ) : Playlist σ :=
  if prev ≠ none ∧ nextSong ≠ prev then { pl with queued := -1 }.send .cancel else pl

def enqueueNext (prev : Option σ) (nextOrder : ℤ) : Except Fault (Playlist σ) :=
  do
    let nextSong ← pl.nextSongAt nextOrder
    let pl := pl.cancelQueued prev nextSong
    if 0 ≤ nextOrder then
      if nextSong ≠ prev then pl.queueSongOrder (unsigned nextOrder)
      else .ok { pl with queued := nextOrder }
    else .ok pl

def startCycle (nextOrder : ℤ) : Except Fault (Playlist σ) :=
  if nextOrder = 0 ∧ pl.queue.random ∧ ¬ pl.queue.single then pl.reshuffle else .ok pl

def nextOrder : ℤ :=
  if 0 ≤ pl.current then pl.queue.nextOrder (unsigned pl.current) else 0

def recordUpdate : Playlist σ :=
  if pl.queue.random then pl
  else
    { pl with updates := (pl.queued, pl.queue.nextOrder (unsigned pl.current)) :: pl.updates }

def updateQueuedSong (prev : Option σ) : Except Fault (Playlist σ) :=
  if pl.playing then
    if pl.queue.isEmpty then .error .emptyQueue
    else if ¬ (pl.queued < 0 ↔ prev = none) then .error .queuedMismatch
    else do
      let nextOrder := pl.nextOrder
      let pl ← pl.startCycle nextOrder
      let pl ← pl.enqueueNext prev nextOrder
      pure pl.recordUpdate
  else .ok pl

/-! ### Playback modes -/

def modeChanged : Except Fault (Playlist σ) := do
  let pl := pl.send (.setBorderPause (pl.queue.single && !pl.queue.repeat_))
  let queued ← pl.getQueuedSong
  pl.updateQueuedSong queued

def setRepeat (status : Bool) : Except Fault (Playlist σ) :=
  if status = pl.queue.repeat_ then .ok pl
  else modeChanged { pl with queue := { pl.queue with repeat_ := status } }

def setSingle (status : Bool) : Except Fault (Playlist σ) :=
  if status = pl.queue.single then .ok pl
  else modeChanged { pl with queue := { pl.queue with single := status } }

def setConsume (status : Bool) : Playlist σ :=
  { pl with queue := { pl.queue with consume := status } }

def currentFirst : Option ℕ → Except Fault (Playlist σ)
  | some position => do
    let currentOrder ← pl.queue.positionToOrder position
    pure { pl with queue := pl.queue.swapOrder 0 currentOrder, current := 0 }
  | none => .ok { pl with current := -1 }

def startRandom : Except Fault (Playlist σ) := do
  let currentPosition ← pl.queue.rememberPosition (if pl.playing then pl.current else -1)
  let queue ← pl.queue.shuffleOrder
  currentFirst { pl with queue := queue } currentPosition

def applyRandom (status : Bool) : Except Fault (Playlist σ) :=
  if status then pl.startRandom else pl.restoreOrder

def setRandom (status : Bool) : Except Fault (Playlist σ) :=
  if status = pl.queue.random then .ok pl
  else do
    let queued ← pl.getQueuedSong
    let pl ← applyRandom { pl with queue := { pl.queue with random := status } } status
    pl.updateQueuedSong queued

end Shuffle

end Playlist

end Mpd
