import Mpd.General.Number
import Mpd.Client.Process
import Mpd.Queue.Basic

/-!
# How commands fail

The error numbers of `err.h`, `command_error` of `protocol/result.c`, which sends an error message,
and `print_error2` of `command.c`, which turns an error number into one.

A message names the command it is about. `command_error` asserts that one is known; a build without
assertions prints a null pointer instead. `Platform` says which build it is, and what the C library
prints.
-/

namespace Mpd

inductive MpdErr
  | success | errFirst | perm | access | missValue | inval | dup | noent | third | nimpl | disabled
  | unknown | playlistErrno | playlistDenied | playlistNoSuchSong | playlistNoSuchList
  | playlistListExists | playlistBadName | playlistBadRange | playlistNotPlaying | playlistTooLarge
  | playlistDisabled | playlistLast | dbFirst | dbDisabled | dbAccess | dbCorrupt | dbMalform
  | dbDup | dbErrno | dbNoent | cmdQuote | errLast
  deriving DecidableEq, Repr

namespace MpdErr

def all : List MpdErr :=
  [success, errFirst, perm, access, missValue, inval, dup, noent, third, nimpl, disabled, unknown,
    playlistErrno, playlistDenied, playlistNoSuchSong, playlistNoSuchList, playlistListExists,
    playlistBadName, playlistBadRange, playlistNotPlaying, playlistTooLarge, playlistDisabled,
    playlistLast, dbFirst, dbDisabled, dbAccess, dbCorrupt, dbMalform, dbDup, dbErrno, dbNoent,
    cmdQuote, errLast]

def code (e : MpdErr) : ℤ :=
  all.idxOf e

def ofCode (r : ℤ) : Option MpdErr :=
  all.find? fun e => e.code = r

end MpdErr

inductive Ack
  | notList | arg | password | permission | unknown | noExist | playlistMax | system | playlistLoad
  | updateAlready | playerSync | exist
  deriving DecidableEq, Repr

def Ack.code : Ack → ℕ
  | notList => 1
  | arg => 2
  | password => 3
  | permission => 4
  | unknown => 5
  | noExist => 50
  | playlistMax => 51
  | system => 52
  | playlistLoad => 53
  | updateAlready => 54
  | playerSync => 55
  | exist => 56

/-- How the program was built, and what the C library prints. -/
structure Platform where
  /-- are assertions checked? -/
  assertions : Bool
  /-- what `%s` prints for a null pointer -/
  nullText : Text
  /-- what `strerror(errno)` says -/
  strerror : Text
  /-- `ENABLE_STICKER` -/
  enableSticker : Bool

inductive CommandFault
  /-- `assert(current_command != NULL)` in `command_error_v` -/
  | noCurrentCommand
  /-- `assert(r <= 0)` in `print_error2` -/
  | positiveError
  /-- a handler's assertion on the number of arguments -/
  | argumentCount
  /-- an assertion on its path in `song_file_load` -/
  | songPath
  /-- an assertion in the playlist -/
  | playlist (fault : Fault)
  deriving DecidableEq, Repr

/-- What the processing of a command sees of a client and of the globals of `result.c`. The rest of
the program is the `world`. -/
structure Server (S : Type) where
  world : S
  /-- `client->permission` -/
  permission : ℕ
  /-- `client->uid`: the user id of the client, or `-1` if it is not known -/
  uid : ℤ
  /-- `current_command` -/
  currentCommand : Option Text
  /-- `command_list_num` -/
  commandListNum : ℕ
  /-- what has been written to the client -/
  output : Text

variable {S : Type}

def ackLine (error : Ack) (num : ℕ) (name text : Text) : Text :=
  "ACK [".toList ++ Nat.toDigits 10 error.code ++ "@".toList ++ Nat.toDigits 10 num ++
    "] \x7b".toList ++ name ++ "\x7d ".toList ++ text ++ "\n".toList

namespace Server

def write (s : Server S) (text : Text) : Server S :=
  { s with output := s.output ++ text }

def commandError (p : Platform) (s : Server S) (error : Ack) (text : Text) :
    Except CommandFault (Server S) :=
  match s.currentCommand with
  | some name =>
    .ok { s.write (ackLine error s.commandListNum name text) with currentCommand := none }
  | none =>
    if p.assertions then .error .noCurrentCommand
    else .ok (s.write (ackLine error s.commandListNum p.nullText text))

def errorMessage (p : Platform) (r : ℤ) : Option (Ack × Text) :=
  match MpdErr.ofCode r with
  | some .success => none
  | some .perm => some (.permission, "Access denied".toList)
  | some .access => some (.unknown, "Failed to open/read/write/stat".toList)
  | some .playlistErrno => some (.system, p.strerror)
  | some .playlistDenied => some (.permission, "Access denied".toList)
  | some .playlistNoSuchSong => some (.noExist, "No such song".toList)
  | some .playlistNoSuchList => some (.noExist, "No such playlist".toList)
  | some .playlistListExists => some (.exist, "Playlist already exists".toList)
  | some .playlistBadName =>
    some (.arg, ("playlist name is invalid: playlist names may not contain slashes," ++
      " newlines or carriage returns").toList)
  | some .playlistBadRange => some (.arg, "Bad song index".toList)
  | some .playlistNotPlaying => some (.playerSync, "Not playing".toList)
  | some .playlistTooLarge => some (.playlistMax, "playlist is at the max size".toList)
  | some .playlistDisabled => some (.unknown, "stored playlist support is disabled".toList)
  | some .dbDisabled => some (.noExist, "Database disabled".toList)
  | some .dbNoent => some (.noExist, "Not found".toList)
  | some .dbAccess => some (.unknown, "Can't access database".toList)
  | some .dbCorrupt => some (.unknown, "Database corrupted".toList)
  | some .dbMalform => some (.unknown, "Database corrupted".toList)
  | some .dbDup => some (.unknown, "Database corrupted".toList)
  | some .cmdQuote => some (.unknown, "Invalid unquoted character".toList)
  | _ => some (.unknown, "Unknown error: ".toList ++ Text.intText r)

def printError2 (p : Platform) (s : Server S) (r : ℤ) :
    Except CommandFault (CommandReturn × Server S) :=
  if p.assertions ∧ 0 < r then .error .positiveError
  else
    match errorMessage p (-r) with
    | none => .ok (.ok, s)
    | some (error, text) => do
      let s ← s.commandError p error text
      pure (.error, s)

variable {p : Platform} {s : Server S} {error : Ack} {text name : Text}

theorem commandError_of_some (h : s.currentCommand = some name) : s.commandError p error text =
      .ok { s.write (ackLine error s.commandListNum name text) with currentCommand := none } := by
  simp only [commandError, h]

theorem commandError_of_none (h : s.currentCommand = none) : s.commandError p error text =
      if p.assertions then .error .noCurrentCommand
      else .ok (s.write (ackLine error s.commandListNum p.nullText text)) := by
  simp only [commandError, h]

theorem commandError_yields : (s.commandError p error text).Yields fun t => t.world = s.world := by
  cases hname : s.currentCommand with
  | some name =>
    rw [commandError_of_some hname]
    exact .ok rfl
  | none =>
    rw [commandError_of_none hname]
    exact .branch .error <| .ok rfl

theorem printError2_succeeds {r : ℤ} (hr : ¬ (p.assertions = true ∧ 0 < r))
    (hname : s.currentCommand = some name) :
    (s.printError2 p r).Succeeds fun t => t.2.world = s.world := by
  rw [printError2, if_neg hr]
  cases errorMessage p (-r) with
  | none => exact .ok rfl
  | some message => simp [commandError_of_some hname, write]

theorem printError2_yields {r : ℤ} : (s.printError2 p r).Yields fun t => t.2.world = s.world := by
  refine .branch .error ?_
  cases errorMessage p (-r) with
  | none => exact .ok rfl
  | some message =>
    exact commandError_yields.bind fun t ht => .ok ht

theorem printError2_zero : s.printError2 p 0 = .ok (.ok, s) := by
  rw [printError2, if_neg (fun h => Int.lt_irrefl 0 h.2)]
  rfl

theorem printError2_cmdQuote : s.printError2 p (-MpdErr.cmdQuote.code) = (do
      let s ← s.commandError p .unknown "Invalid unquoted character".toList
      pure (.error, s)) := by
  have hneg : ¬ 0 < -MpdErr.cmdQuote.code := by decide
  rw [printError2, if_neg fun h => hneg h.2]
  rfl

end Server

end Mpd
