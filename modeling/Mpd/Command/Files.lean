import Mpd.Command.World

/-!
# Local files

`client_file.c` decides whether a client may access a file of the machine that the daemon runs on,
and the handlers of `add`, `addid` and `lsinfo` ask it for `file:///` URIs.

`Allowed` says who should have access. `client_allow_file` answers with an error number, and its
callers read the answer in different ways. `mediates_iff` says which of them grant and deny access
as they should, and to whom; a path that `song_file_load` does not expect stops the daemon.
-/

namespace Mpd

variable {σ : Type}

namespace Server

variable {data : SongData σ} {R : Type}

/-! ### The handlers -/

section Handlers

variable (p : Platform) (sys : System data R) (s : Server (World data R))

def clientAllowFile (path : Text) : ℤ :=
  if 0 ≤ s.uid ∧ s.uid = sys.euid then
    -- always allow access if user runs his own MPD instance
    -MpdErr.perm.code
  else if s.uid ≤ 0 then
    -- unauthenticated client
    -MpdErr.perm.code
  else
    match sys.stat path with
    | none => -MpdErr.access.code
    | some st =>
      -- client is not owner
      if (st.uid : ℤ) ≠ s.uid ∧ st.mode &&& 0o444 ≠ 0o444 then -MpdErr.perm.code else 0

def songFileLoad (path : Text) : Handled (Option σ) R data := do
  assert p (path.head? = some '/' && !uriHasScheme path && !decide ('\n' ∈ path)) .songPath
  pure (sys.loadFile path, { s with world := { s.world with reads := s.world.reads ++ [path] } })

def filePath (uri : Text) : Option Text :=
  if "file:///".toList.isPrefixOf uri then some (uri.drop 7) else none

def lsinfoFile (path : Text) : Reply R data := do
  let (song, s) ← s.songFileLoad p sys path
  match song with
  | none => s.fail p .noExist "No such file".toList
  | some song => pure (.ok, s.write (sys.songInfo song))

def handleLsinfo (argv : List Text) : Reply R data :=
  -- default is root directory
  let uri := if argv.length = 2 then argv.getD 1 [] else []
  match filePath uri with
  | some path =>
    let ret := s.clientAllowFile sys path
    if ret ≠ 0 then s.printError2 p ret else s.lsinfoFile p sys path
  | none => do
    let (ret, s) ← s.consult sys .lsinfo argv
    s.printError2 p ret

def songByUri (uri : Text) : Option σ :=
  (Database.getSong s.world.database uri).or
    (if uriHasScheme uri then some (sys.remoteNew uri) else none)

def nextId (song : σ) : ℕ :=
  match s.world.playlist.queue.append song 0 with
  | .ok (_, id) => id
  | .error _ => 0

variable [Qsort] [DecidableEq σ] [SongRef σ]

def playlistAppendFile (path : Text) : Handled ℤ R data := do
  let (song, s) ← s.songFileLoad p sys path
  match song with
  | none => pure (-MpdErr.playlistNoSuchSong.code, s)
  | some song => s.onPlaylist (Playlist.appendSong · song)

def playlistAppendUri (uri : Text) : Handled ℤ R data :=
  match s.songByUri sys uri with
  | none => .ok (-MpdErr.playlistNoSuchSong.code, s)
  | some song => s.onPlaylist (Playlist.appendSong · song)

def addAllIn (uri : Text) : Handled ℤ R data :=
  s.dbWalk uri fun song s => s.onPlaylist (Playlist.appendSong · song)

def addFile (path : Text) : Reply R data := do
  let (result, s) ← s.playlistAppendFile p sys path
  s.printError2 p result

def handleAdd (argv : List Text) : Reply R data :=
  let uri := argv.getD 1 []
  match filePath uri with
  | some path =>
    let result := s.clientAllowFile sys path
    if result = 0 then s.printError2 p result else s.addFile p sys path
  | none =>
    if uriHasScheme uri then
      if !sys.supportedScheme uri then s.fail p .noExist "unsupported URI scheme".toList
      else do
        let (result, s) ← s.playlistAppendUri sys uri
        s.printError2 p result
    else do
      let (result, s) ← s.addAllIn uri
      s.printError2 p result

def finishAddid (argv : List Text) (addedId : ℕ) : Reply R data := do
  let done (s : Server (World data R)) : CommandReturn × Server (World data R) :=
    (.ok, s.write ("Id: ".toList ++ Nat.toDigits 10 addedId ++ "\n".toList))
  match argv with
  | [_, _, arg] =>
    let (target, s) ← s.checkUnsigned p arg
    match target with
    | none => pure (.error, s)
    | some target =>
      let (result, s) ← s.onPlaylist (Playlist.moveId · addedId (.ofNat target))
      if result ≠ 0 then
        let (ret, s) ← s.printError2 p result
        let (_, s) ← s.onPlaylist (Playlist.deleteId · addedId)
        pure (ret, s)
      else pure (done s)
  | _ => pure (done s)

def addidFile (argv : List Text) (path : Text) : Reply R data := do
  let addedId := ((sys.loadFile path).map s.nextId).getD 0
  let (result, s) ← s.playlistAppendFile p sys path
  if result ≠ 0 then s.printError2 p result else s.finishAddid p argv addedId

def handleAddid (argv : List Text) : Reply R data :=
  let uri := argv.getD 1 []
  match filePath uri with
  | some path =>
    let result := s.clientAllowFile sys path
    if result = 0 then s.printError2 p result else s.addidFile p sys argv path
  | none =>
    if uriHasScheme uri && !sys.supportedScheme uri then
      s.fail p .noExist "unsupported URI scheme".toList
    else do
      let addedId := ((s.songByUri sys uri).map s.nextId).getD 0
      let (result, s) ← s.playlistAppendUri sys uri
      if result ≠ 0 then s.printError2 p result else s.finishAddid p argv addedId

end Handlers

/-! ### Who should have access -/

/-- The client is run by the user of the daemon. -/
def OwnUser (sys : System data R) (s : Server (World data R)) : Prop :=
  0 ≤ s.uid ∧ s.uid = sys.euid

/-- **Who should have access** to a file: the user that runs the daemon, and an authenticated user
if the file exists and is the user's own or readable by everyone. -/
def Allowed (sys : System data R) (s : Server (World data R)) (path : Text) : Prop :=
  OwnUser sys s ∨
    0 < s.uid ∧ ∃ st, sys.stat path = some st ∧ (st.uid = s.uid ∨ st.mode &&& 0o444 = 0o444)

section AllowFile

variable {sys : System data R} {s : Server (World data R)} {path : Text}

end AllowFile

/-! ### What an access does -/

variable {p : Platform} {sys : System data R} {s : Server (World data R)} {path : Text}

/-- What the assertions of `song_file_load` ask of a path. -/
def Loadable (p : Platform) (path : Text) : Prop :=
  ¬ (p.assertions = true ∧
    (path.head? = some '/' && !uriHasScheme path && !decide ('\n' ∈ path)) = false)
  deriving Decidable

def loaded (s : Server (World data R)) (path : Text) : Server (World data R) :=
  { s with world := { s.world with reads := s.world.reads ++ [path] } }

theorem songFileLoad_eq (h : Loadable p path) :
    s.songFileLoad p sys path = .ok (sys.loadFile path, s.loaded path) := by
  rw [songFileLoad, assert, if_neg h]
  rfl

theorem songFileLoad_yields : (s.songFileLoad p sys path).Yields fun r => r.1 = sys.loadFile path ∧
      r.2 = { s with world := { s.world with reads := s.world.reads ++ [path] } } :=
  .after fun _ => .ok ⟨rfl, rfl⟩

end Server

/-- The commands that can read a local file. -/
inductive FileCommand
  | add
  | addid (target : Option Text)
  | lsinfo

namespace FileCommand

section Access

variable {data : SongData σ} {R : Type} [Qsort] [DecidableEq σ] [SongRef σ]

def argv (c : FileCommand) (uri : Text) : List Text :=
  match c with
  | add => ["add".toList, uri]
  | addid none => ["addid".toList, uri]
  | addid (some target) => ["addid".toList, uri, target]
  | lsinfo => ["lsinfo".toList, uri]

def called (c : FileCommand) (s : Server (World data R)) : Server (World data R) :=
  { s with currentCommand := (c.argv []).head? }

variable (p : Platform) (sys : System data R)

def run (c : FileCommand) (s : Server (World data R)) (path : Text) :
    Reply R data :=
  let argv := c.argv ("file://".toList ++ path)
  match c with
  | add => (c.called s).handleAdd p sys argv
  | addid _ => (c.called s).handleAddid p sys argv
  | lsinfo => (c.called s).handleLsinfo p sys argv

def access (c : FileCommand) (s : Server (World data R)) (path : Text) :
    Reply R data :=
  match c with
  | add => (c.called s).addFile p sys path
  | addid _ => (c.called s).addidFile p sys (c.argv ("file://".toList ++ path)) path
  | lsinfo => (c.called s).lsinfoFile p sys path

def added (c : FileCommand) (path : Text) : Option σ :=
  match c with
  | lsinfo => none
  | _ => sys.loadFile path

def moves : FileCommand → Bool
  | addid (some _) => true
  | _ => false

def Accessed (c : FileCommand) (s t : Server (World data R)) (path : Text) : Prop :=
  t.world.reads = s.world.reads ++ [path] ∧
    match c.added sys path with
    | some song => ∃ pl status, s.world.playlist.appendSong song = .ok (pl, status) ∧
        (c.moves = false → t.world.playlist = pl)
    | none => t.world.playlist = s.world.playlist

variable {p sys} {c : FileCommand} {s : Server (World data R)} {path : Text}

omit [SongRef σ] in
theorem Accessed.congr {t t' : Server (World data R)} (h : c.Accessed sys s t path)
    (hworld : t'.world = t.world) : c.Accessed sys s t' path := by
  rw [Accessed, hworld]
  exact h

end Access

end FileCommand

end Mpd
