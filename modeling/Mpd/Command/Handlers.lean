import Mpd.Command.Files

/-!
# The command handlers

The handlers in `command.c` of the commands that ask for neither `PERMISSION_ADD` nor
`PERMISSION_CONTROL`, and `handlers`, which is all of them together. They check their arguments and
then call other parts of the program to print the answer; only `findadd` changes the playlist.
-/

namespace Mpd

namespace Server

variable {σ : Type} {data : SongData σ} {R : Type} (p : Platform) (sys : System data R)
  (s : Server (World data R)) (argv : List Text)

/-! ### Handlers that only print -/

/-- The answer is printed by another part of the program. -/
def handlePrint (handler : Handler) : Reply R data := do
  let (_, s) ← s.consult sys handler argv
  pure (.ok, s)

/-- The same, and its result is reported. -/
def handleReport (handler : Handler) : Reply R data := do
  let (ret, s) ← s.consult sys handler argv
  s.printError2 p ret

/-- `handle_urlhandlers`: a local client may also use `file://`. -/
def handleUrlhandlers : Reply R data :=
  let s := if 0 < s.uid then s.write "handler: file://\n".toList else s
  s.handlePrint sys argv .urlhandlers

/-- `handle_decoders`. -/
def handleDecoders := s.handlePrint sys argv .decoders

/-- `handle_tagtypes`. -/
def handleTagtypes := s.handlePrint sys argv .tagtypes

/-- `handle_currentsong`. -/
def handleCurrentsong := s.handlePrint sys argv .currentsong

/-- `handle_status`. -/
def handleStatus := s.handlePrint sys argv .status

/-- `handle_stats`. -/
def handleStats := s.handlePrint sys argv .stats

/-- `handle_playlist`. -/
def handlePlaylist := s.handlePrint sys argv .playlist

/-- `handle_devices`. -/
def handleDevices := s.handlePrint sys argv .devices

/-- `handle_replay_gain_status`. -/
def handleReplayGainStatus := s.handlePrint sys argv .replayGainStatus

/-- `handle_listall`. -/
def handleListall := s.handleReport p sys argv .listall

/-- `handle_listallinfo`. -/
def handleListallinfo := s.handleReport p sys argv .listallinfo

/-- `handle_listplaylist`. -/
def handleListplaylist := s.handleReport p sys argv .listplaylist

/-- `handle_listplaylistinfo`. -/
def handleListplaylistinfo := s.handleReport p sys argv .listplaylistinfo

/-- `handle_listplaylists`. -/
def handleListplaylists := s.handleReport p sys argv .listplaylists

/-- `handle_channels`. -/
def handleChannels : Reply R data := do
  assert p (argv.length = 1) .argumentCount
  s.handlePrint sys argv .channels

/-- `handle_read_messages`. -/
def handleReadMessages : Reply R data := do
  assert p (argv.length = 1) .argumentCount
  s.handlePrint sys argv .readMessages

/-- `handle_idle`: there is no answer yet. -/
def handleIdle : Reply R data := do
  let (_, s) ← s.consult sys .idle argv
  pure (.idle, s)

/-- A line for each command that is listed. -/
def commandLines (listed : Command → Bool) : Text :=
  ((commands p.enableSticker).filter listed).flatMap fun cmd =>
    "command: ".toList ++ cmd.cmd ++ "\n".toList

/-- `handle_commands`: what the client may use. -/
def handleCommands : Reply R data :=
  .ok (.ok, s.write (commandLines p fun cmd =>
    cmd.permission = s.permission &&& cmd.permission &&
      (cmd.cmd ≠ "sticker".toList || sys.stickerEnabled)))

/-- `handle_not_commands`: what it may not use. -/
def handleNotCommands : Reply R data :=
  .ok (.ok, s.write (commandLines p fun cmd => cmd.permission ≠ s.permission &&& cmd.permission))

/-- `handle_ping`. -/
def handlePing : Reply R data :=
  .ok (.ok, s)

/-- `handle_close`. -/
def handleClose : Reply R data :=
  .ok (.close, s)

/-- `handle_kill`. -/
def handleKill : Reply R data :=
  .ok (.kill, s)

/-! ### Handlers with numbers for arguments -/

/-- What has changed since a version. -/
def handleChanges (handler : Handler) : Reply R data := do
  let (version, s) ← s.checkUint32 p (argv.getD 1 [])
  match version with
  | none => pure (.error, s)
  | some _ => s.handlePrint sys argv handler

/-- `handle_plchanges`. -/
def handlePlchanges := s.handleChanges p sys argv .plchanges

/-- `handle_plchangesposid`. -/
def handlePlchangesposid := s.handleChanges p sys argv .plchangesposid

/-- `playlist_print_info`. -/
def playlistPrintInfo (range : ℕ × ℕ) : Reply R data :=
  if min range.2 s.world.playlist.queue.length < range.1 then
    s.printError2 p (-MpdErr.playlistBadRange.code)
  else s.handlePrint sys argv .playlistinfo

/-- `handle_playlistinfo`. -/
def handlePlaylistinfo : Reply R data := do
  match argv with
  | [_, arg] =>
    let (range, s) ← s.checkRange p arg
    match range with
    | none => pure (.error, s)
    | some range => s.playlistPrintInfo p sys argv range
  | _ => s.playlistPrintInfo p sys argv (0, maxUint)

/-- `handle_playlistid`. -/
def handlePlaylistid : Reply R data := do
  match argv with
  | _ :: arg :: _ =>
    let (id, s) ← s.checkUnsigned p arg
    match id with
    | none => pure (.error, s)
    | some id =>
      if s.world.playlist.queue.positionOfId id < 0 then
        s.printError2 p (-MpdErr.playlistNoSuchSong.code)
      else s.handlePrint sys argv .playlistid
  | _ => s.handlePrint sys argv .playlistid

/-- An output is enabled or disabled. -/
def handleOutput (enable : Bool) : Reply R data := do
  let (device, s) ← s.checkUnsigned p (argv.getD 1 [])
  match device with
  | none => pure (.error, s)
  | some device =>
    match sys.setOutput enable device s.world.rest with
    | none => s.fail p .noExist "No such audio output".toList
    | some rest => pure (.ok, s.withRest rest)

/-- `handle_enableoutput`. -/
def handleEnableoutput := s.handleOutput p sys argv true

/-- `handle_disableoutput`. -/
def handleDisableoutput := s.handleOutput p sys argv false

/-! ### Handlers with criteria for arguments -/

/-- The arguments are criteria, at least one. -/
def withCriteria (run : List LocateItem →
      Reply R data) : Reply R data :=
  match locateItemListParse argv.tail with
  | none | some [] => s.fail p .arg "incorrect arguments".toList
  | some criteria => run criteria

/-- `handle_find`. -/
def handleFind := s.withCriteria p argv fun _ => s.handleReport p sys argv .find

/-- `handle_search`. -/
def handleSearch := s.withCriteria p argv fun _ => s.handleReport p sys argv .search

/-- `handle_count`. -/
def handleCount := s.withCriteria p argv fun _ => s.handleReport p sys argv .count

/-- `handle_playlistfind`. -/
def handlePlaylistfind := s.withCriteria p argv fun _ => s.handlePrint sys argv .playlistfind

/-- `handle_playlistsearch`. -/
def handlePlaylistsearch := s.withCriteria p argv fun _ => s.handlePrint sys argv .playlistsearch

/-- `handle_list`: the values of a tag, or the albums of an artist. -/
def handleList : Reply R data :=
  match locateParseType (argv.getD 1 []) with
  | none => s.fail p .arg (['"'] ++ argv.getD 1 [] ++ "\" is not known".toList)
  | some .any => s.fail p .arg "\"any\" is not a valid return tag type".toList
  | some tagType =>
    -- for compatibility with < 0.12.0
    if argv.length = 3 then
      if tagType ≠ .tag .album then
        s.fail p .arg "should be \"Album\" for 3 arguments".toList
      else s.handleReport p sys argv .list
    else
      match locateItemListParse (argv.drop 2) with
      | none => s.fail p .arg "not able to parse args".toList
      | some _ => s.handleReport p sys argv .list

section FindAdd

variable [Qsort] [DecidableEq σ]

/-- `find_add_song`: a song that matches is appended. -/
def findAddSong (criteria : List LocateItem) (song : σ) (s : Server (World data R)) :
    Handled ℤ R data :=
  if !locateSongMatch data song criteria then .ok (1, s)
  else s.onPlaylist (Playlist.appendSong · song)

/-- `findAddIn`. -/
def findAddIn (name : Text) (criteria : List LocateItem) : Handled ℤ R data :=
  s.dbWalk name (findAddSong criteria)

/-- `handle_findadd`. -/
def handleFindadd : Reply R data :=
  s.withCriteria p argv fun criteria => do
    let (ret, s) ← s.findAddIn [] criteria
    s.printError2 p ret

end FindAdd

/-! ### Other handlers -/

/-- `handle_password`: another permission. -/
def handlePassword : Reply R data :=
  match sys.passwords (argv.getD 1 []) with
  | none => s.fail p .password "incorrect password".toList
  | some permission => .ok (.ok, { s with permission := permission })

/-- `handle_config`. -/
def handleConfig : Reply R data :=
  if ¬ 0 < s.uid then s.fail p .permission "Command only permitted to local clients".toList
  else
    match sys.musicDirectory with
    | none => .ok (.ok, s)
    | some path => .ok (.ok, s.write ("music_directory: ".toList ++ path ++ "\n".toList))

/-- `handle_sticker`. -/
def handleSticker : Reply R data := do
  assert p (4 ≤ argv.length) .argumentCount
  if !sys.stickerEnabled then s.fail p .unknown "sticker database is disabled".toList
  else if argv.getD 2 [] = "song".toList then
    let (error, text, world) ← sys.stickerSong argv s.world
    let s := { s.write text with world := world }
    match error with
    | none => pure (.ok, s)
    | some (error, text) => s.fail p error text
  else s.fail p .arg "unknown sticker domain".toList

/-- `handle_subscribe`. -/
def handleSubscribe : Reply R data := do
  assert p (argv.length = 2) .argumentCount
  let (result, rest) := sys.subscribe (argv.getD 1 []) s.world.rest
  let s := s.withRest rest
  match result with
  | .ok => pure (.ok, s)
  | .invalid => s.fail p .arg "invalid channel name".toList
  | .already => s.fail p .exist "already subscribed to this channel".toList
  | .full => s.fail p .exist "subscription list is full".toList

/-- `handle_unsubscribe`. -/
def handleUnsubscribe : Reply R data := do
  assert p (argv.length = 2) .argumentCount
  match sys.unsubscribe (argv.getD 1 []) s.world.rest with
  | some rest => pure (.ok, s.withRest rest)
  | none => s.fail p .noExist "not subscribed to this channel".toList

end Server

/-! ### All handlers -/

variable {σ : Type} {data : SongData σ} {R : Type} [Qsort] [DecidableEq σ] [SongRef σ]

/-- The handler of each command. -/
def handlers (p : Platform) (sys : System data R) : Handlers (World data R) := fun handler s argv =>
  match handler with
  | .add => s.handleAdd p sys argv
  | .addid => s.handleAddid p sys argv
  | .channels => s.handleChannels p sys argv
  | .close => s.handleClose
  | .commands => s.handleCommands p sys
  | .config => s.handleConfig p sys
  | .count => s.handleCount p sys argv
  | .currentsong => s.handleCurrentsong sys argv
  | .decoders => s.handleDecoders sys argv
  | .devices => s.handleDevices sys argv
  | .disableoutput => s.handleDisableoutput p sys argv
  | .enableoutput => s.handleEnableoutput p sys argv
  | .find => s.handleFind p sys argv
  | .findadd => s.handleFindadd p argv
  | .idle => s.handleIdle sys argv
  | .kill => s.handleKill
  | .list => s.handleList p sys argv
  | .listall => s.handleListall p sys argv
  | .listallinfo => s.handleListallinfo p sys argv
  | .listplaylist => s.handleListplaylist p sys argv
  | .listplaylistinfo => s.handleListplaylistinfo p sys argv
  | .listplaylists => s.handleListplaylists p sys argv
  | .lsinfo => s.handleLsinfo p sys argv
  | .notCommands => s.handleNotCommands p
  | .password => s.handlePassword p sys argv
  | .ping => s.handlePing
  | .playlist => s.handlePlaylist sys argv
  | .playlistfind => s.handlePlaylistfind p sys argv
  | .playlistid => s.handlePlaylistid p sys argv
  | .playlistinfo => s.handlePlaylistinfo p sys argv
  | .playlistsearch => s.handlePlaylistsearch p sys argv
  | .plchanges => s.handlePlchanges p sys argv
  | .plchangesposid => s.handlePlchangesposid p sys argv
  | .readMessages => s.handleReadMessages p sys argv
  | .replayGainStatus => s.handleReplayGainStatus sys argv
  | .search => s.handleSearch p sys argv
  | .stats => s.handleStats sys argv
  | .status => s.handleStatus sys argv
  | .sticker => s.handleSticker p sys argv
  | .subscribe => s.handleSubscribe p sys argv
  | .tagtypes => s.handleTagtypes sys argv
  | .unsubscribe => s.handleUnsubscribe p sys argv
  | .urlhandlers => s.handleUrlhandlers sys argv
  | handler => sys.other handler s argv

end Mpd
