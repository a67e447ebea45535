import Mpd.General.Runs
import Mpd.General.Text

/-!
# Processing the lines of a client

`client_process.c`: a line is a command that is executed at once, or it belongs to a *command
list*. The lines of a list are collected between `command_list_begin` (or
`command_list_ok_begin`) and `command_list_end`, and executed then.

What a command does is left open: `World.process` answers each call of `command_process` with any
result, knowing everything that has happened on the connection, and `World.expired` says when the
client expires. What a session does is recorded in `log`, the latest event last.

A connection is a system of two steps, `Session.Step`; closing it ends the run.
-/

namespace Mpd

inductive CommandReturn
  | error
  | ok
  | idle
  | kill
  | close
  deriving DecidableEq, Repr

namespace Client

inductive Event
  /-- a call of `command_process`, and what it returned -/
  | execute (num : ℕ) (line : Text) (ret : CommandReturn)
  /-- `client_puts` -/
  | puts (s : Text)
  /-- `client_write_output` -/
  | writeOutput
  /-- the warning that a command list is larger than the maximum -/
  | listTooLarge
  deriving DecidableEq, Repr

/-- What a session does not determine itself. -/
structure World where
  /-- the result of `command_process`, and whether the client is idling after it -/
  process : List Event → ℕ → Text → CommandReturn × Bool
  /-- has the client expired? -/
  expired : List Event → Bool

def listModeBegin : Text := "command_list_begin".toList

def listOkModeBegin : Text := "command_list_ok_begin".toList

def listModeEnd : Text := "command_list_end".toList

def noidle : Text := "noidle".toList

def okText : Text := "OK\n".toList

def listOkText : Text := "list_OK\n".toList

/-- The fields of `struct client` that concern commands. -/
structure Session where
  /-- `client_max_command_list_size` -/
  maxCommandListSize : ℕ
  /-- for when in list mode: the lines collected, the latest first -/
  cmdList : List Text
  /-- print OK after each command execution? `-1` if not in list mode -/
  cmdListOK : ℤ
  /-- mem cmd_list consumes -/
  cmdListSize : ℕ
  /-- is this client waiting for an "idle" response? -/
  idleWaiting : Bool
  /-- history variable: what the session has done -/
  log : List Event
  /-- history variable: the lines that have been processed -/
  received : List Text

namespace Session

def init (maxCommandListSize : ℕ) : Session where
  maxCommandListSize := maxCommandListSize
  cmdList := []
  cmdListOK := -1
  cmdListSize := 0
  idleWaiting := false
  log := []
  received := []

def record (s : Session) (e : Event) : Session :=
  { s with log := s.log ++ [e] }

def commandProcess (w : World) (s : Session) (num : ℕ) (line : Text) : CommandReturn × Session :=
  let (ret, idle) := w.process s.log num line
  (ret, { s with idleWaiting := idle }.record (.execute num line ret))

def processCommandListFrom (w : World) (listOk : Bool) (s : Session) :
    ℕ → List Text → CommandReturn × Session
  | _, [] => (.ok, s)
  | num, cmd :: rest =>
    let (ret, s) := s.commandProcess w num cmd
    if ret ≠ .ok ∨ w.expired s.log then (ret, s)
    else
      let s := if listOk then s.record (.puts listOkText) else s
      processCommandListFrom w listOk s (num + 1) rest

def processCommandList (w : World) (s : Session) (listOk : Bool) (list : List Text) :
    CommandReturn × Session :=
  processCommandListFrom w listOk s 0 list

def respond (s : Session) (ret : CommandReturn) : Session :=
  (if ret = .ok then s.record (.puts okText) else s).record .writeOutput

def leaveList (s : Session) : Session :=
  { s with cmdList := [], cmdListOK := -1 }

def endList (w : World) (s : Session) : CommandReturn × Session :=
  -- each new command has been prepended; now the list is reversed to restore the order
  let s := { s with cmdList := s.cmdList.reverse }
  let (ret, s) := s.processCommandList w (s.cmdListOK ≠ 0) s.cmdList
  if ret = .close ∨ w.expired s.log then (.close, s) else (ret, (s.respond ret).leaveList)

def collect (s : Session) (line : Text) : CommandReturn × Session :=
  let s := { s with cmdListSize := s.cmdListSize + (line.length + 1) }
  if s.maxCommandListSize < s.cmdListSize then (.close, s.record .listTooLarge)
  else (.ok, { s with cmdList := line :: s.cmdList })

def executeLine (w : World) (s : Session) (line : Text) : CommandReturn × Session :=
  let (ret, s) := s.commandProcess w 0 line
  if ret = .close ∨ w.expired s.log then (.close, s) else (ret, s.respond ret)

def processLine (w : World) (s : Session) (line : Text) : CommandReturn × Session :=
  if line = noidle then
    if s.idleWaiting then
      -- send empty idle response and leave idle mode
      (.ok, ({ s with idleWaiting := false }.record (.puts okText)).record .writeOutput)
    else (.ok, s)
  else if s.idleWaiting then
    -- during idle mode, clients must not send anything except "noidle"
    (.close, s)
  else if 0 ≤ s.cmdListOK then
    if line = listModeEnd then s.endList w else s.collect line
  else if line = listModeBegin then (.ok, { s with cmdListOK := 0 })
  else if line = listOkModeBegin then (.ok, { s with cmdListOK := 1 })
  else s.executeLine w line

def idleNotify (s : Session) (response : Text) : Session :=
  ({ s with idleWaiting := false }.record (.puts response)).record .writeOutput

/-! ### A connection -/

inductive Step
  | receive (line : Text)
  | notify (response : Text)

inductive Closed
  | kill
  | close
  deriving DecidableEq, Repr

def Step.run (w : World) : Step → Session → Except Closed Session
  | .receive line, s =>
    match s.processLine w line with
    | (.kill, _) => .error .kill
    | (.close, _) => .error .close
    | (_, s') =>
      if w.expired s'.log then .error .close
      else .ok { s' with received := s.received ++ [line] }
  | .notify response, s => .ok (if s.idleWaiting then s.idleNotify response else s)

end Session

end Client

end Mpd
