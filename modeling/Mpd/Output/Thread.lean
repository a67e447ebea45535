import Mathlib.Data.Int.Notation
import Mpd.General.Runs

/-!
# The output thread

`output_thread.c`: one thread for each audio output drives the plugin of the device and the filters
before it. The thread executes the commands that `output_control.c` delivers, and between them plays
the chunks of its pipe.

The results of the plugin and filter calls are left open: a step carries what the calls in it
return. `ao_enable` returns the mixture of a `bool` and an error code that the source returns. The
calls are recorded in `log`. `filter_open` of a replay gain filter does not fail.

The thread releases its mutex while the plugin plays, pauses or sends a tag, and a command may be
delivered meanwhile. `output_control.c` sends a command only if the state of the output asks for it
(`sends`), and waits for it before it sends another. Assertions are checked where they are compiled
in (`debug`).

Audio formats are left out, except whether the configured one is fully defined; so is what the
chunks contain.
-/

namespace Mpd

namespace AudioOutput

inductive Command
  | none
  | enable
  | disable
  | open
  | reopen
  | close
  | pause
  | drain
  | cancel
  | kill
  deriving DecidableEq, Repr

inductive Filter
  | chain
  | replayGain
  | otherReplayGain
  deriving DecidableEq, Repr

inductive Call
  /-- `ao_plugin_enable` -/
  | enable (ret : ℤ)
  /-- `ao_plugin_disable` -/
  | disable
  /-- `ao_plugin_open` -/
  | open (ret : ℤ)
  /-- `ao_plugin_close` -/
  | close
  /-- `ao_plugin_send_tag` -/
  | sendTag
  /-- `ao_plugin_play` -/
  | play (nbytes : ℕ)
  /-- `ao_plugin_pause` -/
  | pause (ret : Bool)
  /-- `ao_plugin_drain` -/
  | drain
  /-- `ao_plugin_cancel` -/
  | cancel
  /-- `filter_open`, and whether it succeeded -/
  | filterOpen (f : Filter) (success : Bool)
  /-- `filter_close` -/
  | filterClose (f : Filter)
  deriving DecidableEq, Repr

def success : ℤ := 0

/-- What the calls in one command return; none is made twice. -/
structure Results where
  /-- `ao_plugin_enable` -/
  enable : ℤ
  /-- `filter_open` of the chain: did it succeed? -/
  filterOpen : Bool
  /-- `ao_plugin_open` -/
  pluginOpen : ℤ
  deriving DecidableEq, Repr

inductive Stop
  /-- the thread is not there, or the command is not sent -/
  | blocked
  /-- `assert(ao->command == AO_COMMAND_NONE)` in `ao_command_async` -/
  | commandSet
  /-- `assert(!ao->open)` -/
  | alreadyOpen
  /-- `assert(ao->open)` -/
  | notOpen
  /-- `assert(ao->pipe != NULL)`, or `audio_pipe_next` without a pipe -/
  | noPipe
  /-- `assert(ao->chunk == NULL)` -/
  | chunkLeft
  /-- `assert(ao->chunk == chunk)` -/
  | chunkLost
  /-- `assert(ao->fail_timer == NULL)` -/
  | failTimerSet
  /-- `assert(nbytes <= size)` -/
  | playedTooMuch
  deriving DecidableEq, Repr

inductive Pc
  /-- at the `switch` in `audio_output_task` -/
  | top
  /-- behind the `switch` -/
  | bottom
  /-- at the loop of `ao_play` -/
  | chunks
  /-- in `ao_play_chunk`, where the tag has been sent -/
  | filtering
  /-- at the loop of `ao_play_chunk`, with this many bytes to be played -/
  | playing (size : ℕ)
  /-- `ao_plugin_play` runs -/
  | inPlay (size : ℕ)
  /-- at the loop of `ao_pause` -/
  | pausing
  /-- `ao_plugin_pause` runs -/
  | inPause
  /-- `audio_output_task` has returned -/
  | killed
  deriving DecidableEq, Repr

/-- `struct audio_output`. -/
structure Output where
  /-- is the source compiled with assertions? -/
  debug : Bool
  /-- `really_enabled` when the thread is started; without an enable method, it is just assigned -/
  enabledBefore : Bool
  /-- `replay_gain_filter != NULL` -/
  replayGainFilter : Bool
  /-- `other_replay_gain_filter != NULL` -/
  otherReplayGainFilter : Bool
  /-- `audio_format_fully_defined(&ao->config_audio_format)` -/
  fullyDefined : Bool
  /-- is this device actually enabled, i.e. the "enable" method has succeeded? -/
  reallyEnabled : Bool
  /-- is the device (already) open and functional? -/
  isOpen : Bool
  /-- is the device paused? -/
  pause : Bool
  /-- may the thread play? -/
  allowPlay : Bool
  /-- `fail_timer != NULL` -/
  failTimer : Bool
  /-- `pipe != NULL` -/
  pipe : Bool
  /-- `chunk != NULL` -/
  chunk : Bool
  command : Command
  pc : Pc
  /-- history variable: the calls that have been made -/
  log : List Call
  /-- history variable: the calls of each `OPEN` command -/
  opens : List (List Call)

namespace Output

def init (debug enabledBefore replayGainFilter otherReplayGainFilter fullyDefined : Bool) :
    Output where
  debug := debug
  enabledBefore := enabledBefore
  replayGainFilter := replayGainFilter
  otherReplayGainFilter := otherReplayGainFilter
  fullyDefined := fullyDefined
  reallyEnabled := enabledBefore
  isOpen := false
  pause := false
  allowPlay := true
  failTimer := false
  pipe := false
  chunk := false
  command := .none
  pc := .top
  log := []
  opens := []

variable (ao : Output)

def assertion (expression : Bool) (stop : Stop) : Except Stop Unit :=
  if ao.debug && !expression then .error stop else .ok ()

def call (c : Call) : Output :=
  { ao with log := ao.log ++ [c] }

def enable (r : Results) : ℤ × Output :=
  if ao.reallyEnabled then (1, ao)
  else
    let ao := ao.call (.enable r.enable)
    if r.enable ≠ success then (r.enable, ao) else (success, { ao with reallyEnabled := true })

def replayGainOpen : Output :=
  if ao.replayGainFilter then ao.call (.filterOpen .replayGain true) else ao

def otherReplayGainOpen : Output :=
  if ao.otherReplayGainFilter then ao.call (.filterOpen .otherReplayGain true) else ao

def replayGainClose : Output :=
  if ao.replayGainFilter then ao.call (.filterClose .replayGain) else ao

def otherReplayGainClose : Output :=
  if ao.otherReplayGainFilter then ao.call (.filterClose .otherReplayGain) else ao

def filterOpen (r : Results) : Bool × Output :=
  let ao := ao.replayGainOpen.otherReplayGainOpen.call (.filterOpen .chain r.filterOpen)
  if r.filterOpen then (true, ao) else (false, ao.replayGainClose.otherReplayGainClose)

def filterClose : Output :=
  ao.replayGainClose.otherReplayGainClose.call (.filterClose .chain)

def openFilterAndPlugin (r : Results) : Output :=
  match ao.filterOpen r with
  | (false, ao) => { ao with failTimer := true }
  | (true, ao) =>
    let ao := ao.call (.open r.pluginOpen)
    if r.pluginOpen ≠ success then { ao.filterClose with failTimer := true }
    else { ao with isOpen := true }

/-- `ao_open` -/
def openOutput (r : Results) : Except Stop Output := do
  ao.assertion (!ao.isOpen) .alreadyOpen
  ao.assertion ao.pipe .noPipe
  ao.assertion (!ao.chunk) .chunkLeft
  let (ret, ao) := { ao with failTimer := false }.enable r
  -- `if (!ao_enable(ao)) return;`
  if ret = 0 then .ok ao else .ok (ao.openFilterAndPlugin r)

/-- `ao_close` -/
def close (drain : Bool) : Except Stop Output := do
  ao.assertion ao.isOpen .notOpen
  let ao := { ao with pipe := false, chunk := false, isOpen := false }
  .ok (((ao.call (if drain then .drain else .cancel)).call .close).filterClose)

def closeIfOpen : Except Stop Output :=
  if ao.isOpen then ao.close false else .ok ao

def disable : Except Stop Output := do
  let ao ← ao.closeIfOpen
  .ok (if ao.reallyEnabled then { ao with reallyEnabled := false }.call .disable else ao)

def reopenFilter (r : Results) : Output :=
  match ao.filterClose.filterOpen r with
  | (false, ao) =>
    { ao with pipe := false, chunk := false, isOpen := false, failTimer := true }.call .close
  | (true, ao) => ao

def closeForReopen : Except Stop Output :=
  if ao.fullyDefined = false ∧ ao.isOpen then do
    let closed ← ao.close true
    .ok { closed with pipe := ao.pipe }
  else .ok ao

def reopen (r : Results) : Except Stop Output := do
  let ao ← ao.closeForReopen
  if ao.isOpen then .ok (ao.reopenFilter r) else ao.openOutput r

def finished (pc : Pc) : Output :=
  { ao with command := .none, pc := pc }

def pauseBegin : Output :=
  { ao.call .cancel with pause := true }.finished .pausing

def execute (r : Results) : Except Stop Output :=
  match ao.command with
  | .none => .ok { ao with pc := .bottom }
  | .enable => .ok ((ao.enable r).2.finished .bottom)
  | .disable => do
    let ao ← ao.disable
    .ok (ao.finished .bottom)
  | .open => do
    let ao' ← ao.openOutput r
    .ok ({ ao' with opens := ao'.log.drop ao.log.length :: ao'.opens }.finished .bottom)
  | .reopen => do
    let ao ← ao.reopen r
    .ok (ao.finished .bottom)
  | .close => do
    ao.assertion ao.isOpen .notOpen
    ao.assertion ao.pipe .noPipe
    let ao ← ao.close false
    .ok (ao.finished .bottom)
  | .pause =>
    -- the output may have failed after the command was submitted
    if ao.isOpen = false then .ok (ao.finished .bottom) else .ok ao.pauseBegin
  | .drain =>
    if ao.isOpen then do
      ao.assertion (!ao.chunk) .chunkLeft
      .ok ((ao.call .drain).finished .top)
    else .ok (ao.finished .top)
  | .cancel =>
    let ao := { ao with chunk := false }
    .ok ((if ao.isOpen then ao.call .cancel else ao).finished .top)
  | .kill => .ok ({ ao with chunk := false }.finished .killed)

/-- `ao_plugin_pause` returns. -/
def pauseReturn (ret : Bool) : Except Stop Output := do
  let ao := ao.call (.pause ret)
  if ret = false then
    let ao ← ao.close false
    .ok { ao with pause := false, pc := .top }
  else if ao.command = .none then .ok { ao with pc := .pausing }
  else .ok { ao with pause := false, pc := .top }

/-- Behind the `switch`: `ao_play`, and whether there is a chunk. -/
def beginPlay (available : Bool) : Except Stop Output :=
  if ao.isOpen = false ∨ ao.allowPlay = false then .ok { ao with pc := .top }
  else if ao.pipe = false then .error .noPipe
  else if available then .ok { ao with pc := .chunks }
  else .ok { ao with pc := .top }

def nextChunk (tag : Bool) : Except Stop Output :=
  if ao.command ≠ .none then .error .blocked
  else .ok { if tag then ao.call .sendTag else ao with chunk := true, pc := .filtering }

/-- `ao_filter_chunk` returns. -/
def filtered : Option ℕ → Except Stop Output
  | none => do
    let ao ← ao.close false
    .ok { ao with failTimer := true, pc := .top }
  | some size => .ok { ao with pc := .playing size }

/-- `ao_plugin_play` returns. -/
def playReturn (size nbytes : ℕ) : Except Stop Output := do
  let ao := ao.call (.play nbytes)
  if nbytes = 0 then
    let ao ← ao.close false
    ao.assertion (!ao.failTimer) .failTimerSet
    .ok { ao with failTimer := true, pc := .top }
  else
    ao.assertion (nbytes ≤ size) .playedTooMuch
    let size := (size + 18446744073709551616 - nbytes) % 18446744073709551616
    .ok { ao with pc := .playing size }

/-! ### Commands -/

/-- When `output_control.c` sends a command. `audio_output_update` opens only an enabled device,
and `audio_output_finish` closes the device before it sends `KILL`. -/
def sends : Command → Bool
  | .none => false
  | .enable | .disable => true
  | .open => ao.reallyEnabled && !ao.isOpen
  | .reopen => ao.reallyEnabled && ao.isOpen
  | .close | .pause | .drain | .cancel => ao.isOpen
  | .kill => !ao.isOpen

/-- What `audio_output_open` does before it sends a command. -/
def newPipe : Output :=
  { ao with pipe := true, chunk := false, failTimer := false }

def deliver (cmd : Command) : Except Stop Output :=
  if ao.command ≠ .none then .error .commandSet
  else if ao.sends cmd = false then .error .blocked
  else
    .ok { if cmd = .open ∨ cmd = .reopen then ao.newPipe else ao with
      command := cmd
      -- `audio_output_cancel`
      allowPlay := ao.allowPlay && cmd ≠ .cancel }

/-- `audio_output_open` leaves the pause with `CANCEL`. -/
def unpause : Except Stop Output :=
  if ao.command ≠ .none then .error .commandSet
  else if ao.reallyEnabled ∧ ao.isOpen ∧ ao.pause then .ok { ao.newPipe with command := .cancel }
  else .error .blocked

end Output

inductive Step
  /-- `ao_command_async` -/
  | deliver (cmd : Command)
  /-- `audio_output_open` while paused -/
  | unpause
  /-- the player thread has taken the chunk back -/
  | clearChunk
  /-- `audio_output_allow_play` -/
  | allowPlay
  /-- the fail timer is destroyed -/
  | resetReopen
  /-- at the `switch` -/
  | execute (r : Results)
  /-- behind the `switch` -/
  | beginPlay (available : Bool)
  /-- there is a chunk, and the tag is sent -/
  | nextChunk (tag : Bool)
  | filtered (size : Option ℕ)
  /-- `ao_plugin_play` is called -/
  | play
  | playReturn (nbytes : ℕ)
  /-- the chunk has been played, or a command has been delivered -/
  | endChunk
  /-- there is no more chunk, or a command has been delivered -/
  | endPlay
  /-- `ao_plugin_pause` is called -/
  | pause
  | pauseReturn (ret : Bool)
  /-- a command ends the pause -/
  | endPause
  deriving DecidableEq, Repr

def Step.run : Step → Output → Except Stop Output
  | .deliver cmd, ao => ao.deliver cmd
  | .unpause, ao => ao.unpause
  | .clearChunk, ao => .ok { ao with chunk := false }
  | .allowPlay, ao => .ok { ao with allowPlay := true }
  | .resetReopen, ao => .ok { ao with failTimer := false }
  | .execute r, ao => if ao.pc = .top then ao.execute r else .error .blocked
  | .beginPlay available, ao => if ao.pc = .bottom then ao.beginPlay available else .error .blocked
  | .nextChunk tag, ao => if ao.pc = .chunks then ao.nextChunk tag else .error .blocked
  | .filtered size, ao => if ao.pc = .filtering then ao.filtered size else .error .blocked
  | .play, ao =>
    match ao.pc with
    | .playing (size + 1) =>
      if ao.command = .none then .ok { ao with pc := .inPlay (size + 1) } else .error .blocked
    | _ => .error .blocked
  | .playReturn nbytes, ao =>
    match ao.pc with
    | .inPlay size => ao.playReturn size nbytes
    | _ => .error .blocked
  | .endChunk, ao =>
    match ao.pc with
    | .playing size =>
      if size = 0 ∨ ao.command ≠ .none then do
        ao.assertion ao.chunk .chunkLost
        .ok { ao with pc := .chunks }
      else .error .blocked
    | _ => .error .blocked
  | .endPlay, ao => if ao.pc = .chunks then .ok { ao with pc := .top } else .error .blocked
  | .pause, ao => if ao.pc = .pausing then .ok { ao with pc := .inPause } else .error .blocked
  | .pauseReturn ret, ao => if ao.pc = .inPause then ao.pauseReturn ret else .error .blocked
  | .endPause, ao =>
    if ao.pc = .pausing ∧ ao.command ≠ .none then .ok { ao with pause := false, pc := .top }
    else .error .blocked

end AudioOutput

end Mpd
