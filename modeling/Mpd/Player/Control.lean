import Mpd.General.Runs
import Mpd.General.Text
import Mpd.Playlist.Basic

/-!
# The player control

`player_control.c` and the parts of `player_thread.c` that use `struct player_control`: how the main
thread gives a command to the player thread and waits for its acknowledgement, and how the player
thread records errors.

Two mutexes are involved. `command` belongs to `mutex`, which the player thread holds except while
it waits or works on something long; `error` is set to `PENDING` by the main thread, under
`client_mutex`, and reset by the acknowledgement. A step of the model is a section under `mutex`
(for the main thread also one under `client_mutex`) or an operation on a condition variable. What
the decoder and the outputs do is left open: each step of the player thread that depends on them
comes in all variants.

History variables say which command the player thread has acknowledged, whether it has dropped one,
and which error stands recorded. The fields that only describe the song being played, and
`state`, have no counterpart.
-/

namespace Mpd

namespace Player

inductive Command
  | none
  | exit
  | stop
  | pause
  | seek
  | closeAudio
  | updateAudio
  | queue
  | cancel
  | refresh
  deriving DecidableEq, Repr

inductive Request (σ : Type)
  | exit
  | stop
  | pause
  | seek (song : σ)
  | closeAudio
  | updateAudio
  | queue (song : σ)
  | cancel
  | refresh
  deriving DecidableEq, Repr

namespace Request

variable {σ : Type}

def command : Request σ → Command
  | exit => .exit
  | stop => .stop
  | pause => .pause
  | seek _ => .seek
  | closeAudio => .closeAudio
  | updateAudio => .updateAudio
  | queue _ => .queue
  | cancel => .cancel
  | refresh => .refresh

def song : Request σ → Option σ
  | seek song => some song
  | queue song => some song
  | _ => .none

theorem command_ne_none (r : Request σ) : r.command ≠ .none := by
  cases r <;> exact fun h => nomatch h

end Request

inductive MainPc
  /-- not in `player_command` -/
  | idle
  /-- `command` has been set -/
  | issued
  /-- `error` has been set to `PENDING`; `client_mutex` is held -/
  | pending
  /-- in `cnd_wait`, and woken up? -/
  | waiting (woken : Bool)
  /-- the loop has been left -/
  | left
  deriving DecidableEq, Repr

def MainPc.signal : MainPc → MainPc
  | .waiting _ => .waiting true
  | pc => pc

inductive PlayerPc
  /-- `player_task`: in `player_wait`, and woken up? -/
  | waiting (woken : Bool)
  /-- `player_task`: executing the command -/
  | handling (cmd : Command)
  /-- `do_play`: waiting for the decoder, which has been started for the command -/
  | starting (cmd : Command)
  /-- `do_play`: the decoder has failed to start -/
  | startFailed (cmd : Command)
  /-- `do_play`: the decoder has started -/
  | started (cmd : Command)
  /-- `do_play`: in the loop -/
  | playing
  /-- `do_play`: in `player_wait`, and woken up? -/
  | paused (woken : Bool)
  /-- `player_process_command`: executing the command -/
  | processing (cmd : Command)
  /-- `player_process_command`: `player_seek_decoder` has returned -/
  | sought
  /-- `do_play`: the loop has been left -/
  | ending
  /-- `do_play`: about to return -/
  | leaving
  /-- `player_task` has returned -/
  | exited
  deriving DecidableEq, Repr

def PlayerPc.signal : PlayerPc → PlayerPc
  | .waiting _ => .waiting true
  | .paused _ => .paused true
  | pc => pc

inductive Recorded (σ : Type)
  | file (song : σ)
  | audio
  deriving DecidableEq, Repr

inductive Stop
  /-- the thread is not there, or waits for a mutex -/
  | blocked
  /-- `assert(pc->command == PLAYER_COMMAND_NONE)` in `player_command` -/
  | commandSet
  /-- `assert(pc->command != PLAYER_COMMAND_NONE)` in `player_command_finished_locked` -/
  | noCommand
  /-- `assert(pc->next_song != NULL)` -/
  | noNextSong
  /-- `assert(!player->queued)` -/
  | alreadyQueued
  /-- `assert(song != NULL)` in `song_get_uri` -/
  | noErroredSong
  /-- `assert(false)` in `pc_get_error_message` -/
  | errorPending
  deriving DecidableEq, Repr

/-- The two threads and what they share. -/
structure State (σ : Type) where
  command : Command
  error : PlayerError
  nextSong : Option σ
  erroredSong : Option σ
  /-- `player.queued`, in `do_play` -/
  queued : Bool
  main : MainPc
  player : PlayerPc
  /-- history variable: the player thread has acknowledged the latest command -/
  acknowledged : Bool
  /-- history variable: the player thread has overwritten a command with `NONE` that it had not
  acknowledged -/
  lost : Bool
  /-- history variable: the error recorded last, unless it has been cleared -/
  recorded : Option (Recorded σ)
  deriving DecidableEq, Repr

inductive Step (σ : Type)
  /-- `player_command`: set `command` -/
  | issue (r : Request σ)
  /-- `player_command`: set `error` to `PENDING` and signal -/
  | pend
  /-- `player_command`: test the condition of the loop, and wait or leave it -/
  | check
  /-- `player_command`: reset `command` and return -/
  | finish
  /-- `cnd_wait` returns in the main thread without a signal -/
  | wakeMain
  /-- `pc_clear_error` -/
  | clearError
  /-- `pc_song_deleted` -/
  | songDeleted (song : σ)
  /-- `cnd_wait` returns in the player thread without a signal, or because of an output -/
  | wakePlayer
  /-- `player_task`: a round of the loop, from `player_wait` on -/
  | task
  /-- `player_task`: the command has been executed -/
  | handled
  /-- `player_wait_for_decoder`: the decoder has started -/
  | decoderStarted
  /-- `player_wait_for_decoder` or `player_check_decoder_startup`: the decoder has failed to start;
  the former also clears `next_song` -/
  | decoderFailed (song : σ) (clear : Bool)
  /-- `player_open_output` or `play_next_chunk`: an output has failed -/
  | outputFailed
  /-- `do_play`: acknowledge the command that started it -/
  | acknowledgeStart
  /-- `do_play`: a round of the loop; is `mutex` released to execute the command? -/
  | loop (release : Bool)
  /-- `do_play`: wait while paused -/
  | sleep (release : Bool)
  /-- `player_process_command`: the command has been executed -/
  | processed
  /-- `do_play`: test the condition of the loop after seeking -/
  | resume
  /-- `do_play`: leave the loop by itself -/
  | stopPlaying
  /-- `do_play`: after the loop -/
  | endPlaying
  /-- `player_task`: after `do_play` -/
  | leave
  deriving DecidableEq, Repr

def Command.Ends (c : Command) : Prop :=
  c = .stop ∨ c = .exit ∨ c = .closeAudio
  deriving Decidable

namespace State

variable {σ : Type}

def init : State σ where
  command := .none
  error := .noError
  nextSong := none
  erroredSong := none
  queued := false
  main := .idle
  player := .waiting true
  acknowledged := true
  lost := false
  recorded := none

/-! ### The main thread -/

variable (s : State σ)

def issue (r : Request σ) : Except Stop (State σ) :=
  if s.main ≠ .idle then .error .blocked
  else if s.command ≠ .none then .error .commandSet
  else .ok { s with
    command := r.command
    nextSong := r.song.or s.nextSong
    main := .issued
    acknowledged := false }

def pend : Except Stop (State σ) :=
  if s.main = .issued then
    .ok { s with error := .pending, main := .pending, player := s.player.signal }
  else .error .blocked

def check : Except Stop (State σ) :=
  if s.main = .pending ∨ s.main = .waiting true then
    .ok { s with main := if s.error = .pending then .waiting false else .left }
  else .error .blocked

def finish : Except Stop (State σ) :=
  if s.main = .left then .ok { s with command := .none, main := .idle } else .error .blocked

def clearError : Except Stop (State σ) :=
  if s.main = .idle then .ok { s with error := .noError, erroredSong := none, recorded := none }
  else .error .blocked

def songDeleted [DecidableEq σ] (song : σ) : Except Stop (State σ) :=
  if s.main ≠ .idle then .error .blocked
  else if s.erroredSong = some song then
    .ok { s with error := .noError, erroredSong := none, recorded := none }
  else .ok s

def getError : PlayerError :=
  s.error

def erroredSongUri (uri : σ → Text) (s : State σ) : Except Stop Text :=
  match s.erroredSong with
  | none => .error .noErroredSong
  | some song => .ok (uri song)

def getErrorMessage (uri : σ → Text) (s : State σ) : Except Stop (Option Text) :=
  match s.error with
  | .noError => .ok none
  | .fileNotFound => do
    let uri ← s.erroredSongUri uri
    .ok (some ("file \"".toList ++ uri ++ "\" does not exist or is inaccessible".toList))
  | .file => do
    let uri ← s.erroredSongUri uri
    .ok (some ("problems decoding \"".toList ++ uri ++ "\"".toList))
  | .audio => .ok (some "problems opening audio device".toList)
  | .system => .ok (some "system error occurred".toList)
  | .unknownType => do
    let uri ← s.erroredSongUri uri
    .ok (some ("file type of \"".toList ++ uri ++ "\" is unknown".toList))
  | .pending => .error .errorPending

/-! ### The player thread -/

def commandFinished (taken : Command) : Except Stop (State σ) :=
  if s.command = .none then .error .noCommand
  else if s.main = .pending then .error .blocked
  else .ok { s with
    command := .none
    error := if s.error = .pending then .noError else s.error
    main := s.main.signal
    acknowledged := true
    lost := s.lost || s.command ≠ taken }

def resetAndWait : State σ :=
  { s with
    command := .none
    player := .waiting false
    lost := s.lost || s.command ≠ .none }

def finishTask (taken : Command) : Except Stop (State σ) := do
  let s ← s.commandFinished taken
  .ok s.resetAndWait

def task : Except Stop (State σ) :=
  if s.player ≠ .waiting true then .error .blocked
  else
    match s.command with
    | .none => .ok s.resetAndWait
    | .seek =>
      if s.nextSong.isNone then .error .noNextSong
      else .ok { s with player := .starting .seek, queued := true }
    | .queue =>
      if s.nextSong.isNone then .error .noNextSong
      else .ok { s with player := .starting .queue, queued := true }
    | .pause => { s with nextSong := none }.finishTask .pause
    | .cancel => { s with nextSong := none }.finishTask .cancel
    | .refresh => s.finishTask .refresh
    | cmd => .ok { s with player := .handling cmd }

def handled : Except Stop (State σ) :=
  match s.player with
  | .handling .stop => { s with nextSong := none }.finishTask .stop
  | .handling .exit => do
    let s ← s.commandFinished .exit
    .ok { s with player := .exited }
  | .handling cmd => s.finishTask cmd
  | _ => .error .blocked

def takeNextSong : Except Stop (State σ) :=
  if s.nextSong.isNone then .error .noNextSong
  else .ok { s with nextSong := none, queued := false }

def decoderStarted : Except Stop (State σ) :=
  match s.player with
  | .starting cmd => { s with player := .started cmd }.takeNextSong
  | .playing => s.takeNextSong
  | .processing .seek => s.takeNextSong
  | _ => .error .blocked

def record : Recorded σ → State σ
  | .file song =>
    { s with error := .file, erroredSong := some song, recorded := some (.file song) }
  | .audio => { s with error := .audio, recorded := some .audio }

def decoderFailed (song : σ) (clear : Bool) : Except Stop (State σ) :=
  let s := s.record (.file song)
  match s.player with
  | .starting cmd => { s with player := .startFailed cmd }.takeNextSong
  | .playing =>
    if clear then { s with player := .ending }.takeNextSong else .ok { s with player := .ending }
  | .processing .seek => if clear then s.takeNextSong else .ok s
  | _ => .error .blocked

def outputFailed : Except Stop (State σ) :=
  match s.player with
  | .playing => .ok (s.record .audio)
  | .processing .pause => .ok (s.record .audio)
  | .processing .seek => .ok (s.record .audio)
  | _ => .error .blocked

def acknowledgeStart : Except Stop (State σ) :=
  match s.player with
  | .startFailed cmd => do
    let s ← s.commandFinished cmd
    .ok { s with player := .leaving }
  | .started cmd => do
    let s ← s.commandFinished cmd
    .ok { s with player := .playing }
  | _ => .error .blocked

def finishProcess (taken : Command) : Except Stop (State σ) := do
  let s ← s.commandFinished taken
  .ok { s with player := .playing }

def processCommand (release : Bool) : Except Stop (State σ) :=
  match s.command with
  | .none => .ok { s with player := .playing }
  | .queue =>
    if s.nextSong.isNone then .error .noNextSong
    else if s.queued then .error .alreadyQueued
    else { s with queued := true }.finishProcess .queue
  | .cancel =>
    if s.nextSong.isNone then
      -- the cancel request arrived too late, we're already playing the queued song
      .ok { s with command := .stop, player := .ending }
    else if release then .ok { s with player := .processing .cancel }
    else { s with nextSong := none, queued := false }.finishProcess .cancel
  | .refresh =>
    if release then .ok { s with player := .processing .refresh } else s.finishProcess .refresh
  | .updateAudio => .ok { s with player := .processing .updateAudio }
  | .pause => .ok { s with player := .processing .pause }
  | .seek => .ok { s with player := .processing .seek }
  | _ => .ok { s with player := .ending }

def loop (release : Bool) : Except Stop (State σ) :=
  if s.player = .playing ∨ s.player = .paused true then s.processCommand release
  else .error .blocked

def sleep (release : Bool) : Except Stop (State σ) :=
  if s.player ≠ .playing then .error .blocked
  else if s.command = .none then .ok { s with player := .paused false }
  else s.processCommand release

def processed : Except Stop (State σ) :=
  match s.player with
  | .processing .cancel => { s with nextSong := none, queued := false }.finishProcess .cancel
  | .processing .seek => do
    let s ← s.commandFinished .seek
    .ok { s with player := .sought }
  | .processing cmd => s.finishProcess cmd
  | _ => .error .blocked

def resume : Except Stop (State σ) :=
  if s.player = .sought then
    .ok { s with player := if s.command.Ends then .ending else .playing }
  else .error .blocked

def stopPlaying : Except Stop (State σ) :=
  if s.player = .playing then .ok { s with player := .ending } else .error .blocked

def endPlaying : Except Stop (State σ) :=
  if s.player ≠ .ending then .error .blocked
  else if s.queued then
    if s.nextSong.isNone then .error .noNextSong
    else .ok { s with nextSong := none, player := .leaving }
  else .ok { s with player := .leaving }

def leave : Except Stop (State σ) :=
  if s.player = .leaving then .ok s.resetAndWait else .error .blocked

end State

def Step.run {σ : Type} [DecidableEq σ] : Step σ → State σ → Except Stop (State σ)
  | .issue r, s => s.issue r
  | .pend, s => s.pend
  | .check, s => s.check
  | .finish, s => s.finish
  | .wakeMain, s => .ok { s with main := s.main.signal }
  | .clearError, s => s.clearError
  | .songDeleted song, s => s.songDeleted song
  | .wakePlayer, s => .ok { s with player := s.player.signal }
  | .task, s => s.task
  | .handled, s => s.handled
  | .decoderStarted, s => s.decoderStarted
  | .decoderFailed song clear, s => s.decoderFailed song clear
  | .outputFailed, s => s.outputFailed
  | .acknowledgeStart, s => s.acknowledgeStart
  | .loop release, s => s.loop release
  | .sleep release, s => s.sleep release
  | .processed, s => s.processed
  | .resume, s => s.resume
  | .stopPlaying, s => s.stopPlaying
  | .endPlaying, s => s.endPlaying
  | .leave, s => s.leave

end Player

end Mpd
