import Mpd.Command.Process
import Mpd.Command.ArgParser
import Mpd.Playlist.Run

/-!
# What the command handlers act upon

The handlers of `command.c` act upon the global playlist and the database. What they reach besides
(outputs, stored playlists, stickers, messages between clients) is the `rest`. The functions that
are not modelled are those of a `System`, and arbitrary. That those which print leave the playlist
alone is an assumption, `System.LeavesPlaylist`.
-/

namespace Mpd

variable {σ : Type}

/-- What `stat` tells of a file. -/
structure Stat where
  uid : ℕ
  mode : ℕ

inductive SubscribeResult
  | ok | invalid | already | full
  deriving DecidableEq, Repr

/-- What the handlers act upon. -/
structure World (data : SongData σ) (R : Type) where
  /-- `g_playlist` -/
  playlist : Playlist σ
  /-- the database, if there is one -/
  database : Option (Database data.uri)
  /-- history variable (not in the source): the files that `song_file_load` was called for -/
  reads : List Text
  rest : R

/-- The functions that the handlers call. -/
structure System (data : SongData σ) (R : Type) where
  /-- `geteuid` -/
  euid : ℕ
  /-- `stat`, which may fail -/
  stat : Text → Option Stat
  /-- what `song_file_load` makes of a file -/
  loadFile : Text → Option σ
  /-- `song_remote_new` -/
  remoteNew : Text → σ
  /-- `uri_supported_scheme` -/
  supportedScheme : Text → Bool
  /-- what `song_print_info` prints -/
  songInfo : σ → Text
  /-- `getPermissionFromPassword` -/
  passwords : Text → Option ℕ
  /-- `mapper_get_music_directory_utf8` -/
  musicDirectory : Option Text
  /-- `audio_output_enable_index` and `audio_output_disable_index` -/
  setOutput : Bool → ℕ → R → Option R
  /-- `client_subscribe` -/
  subscribe : Text → R → SubscribeResult × R
  /-- `client_unsubscribe` -/
  unsubscribe : Text → R → Option R
  /-- `sticker_enabled` -/
  stickerEnabled : Bool
  /-- `handle_sticker_song`: an error, if there is one, and what it prints -/
  stickerSong : List Text → World data R →
    Except CommandFault (Option (Ack × Text) × Text × World data R)
  /-- what a handler calls to print its answer, and the error number that this returns -/
  call : Handler → List Text → World data R → Except CommandFault (ℤ × Text × World data R)
  /-- the handlers of the commands that are not modelled -/
  other : Handlers (World data R)

/-- **What printing leaves alone.** The functions that print an answer, and `handle_sticker_song`,
take the playlist by a pointer to `const`, or do not touch `g_playlist`. -/
structure System.LeavesPlaylist {data : SongData σ} {R : Type} (sys : System data R) : Prop where
  call : ∀ handler argv w, (sys.call handler argv w).Yields fun r => r.2.2.playlist = w.playlist
  stickerSong : ∀ argv w, (sys.stickerSong argv w).Yields fun r => r.2.2.playlist = w.playlist

/-- What a handler, or a function that one calls, comes to: a value and the server afterwards. -/
abbrev Handled (α R : Type) (data : SongData σ) := Except CommandFault (α × Server (World data R))

/-- What a command handler returns. -/
abbrev Reply (R : Type) (data : SongData σ) :=
  Handled CommandReturn R data

def Status.code : Status → ℤ
  | success => 0
  | noSuchSong => -MpdErr.playlistNoSuchSong.code
  | badRange => -MpdErr.playlistBadRange.code
  | notPlaying => -MpdErr.playlistNotPlaying.code
  | tooLarge => -MpdErr.playlistTooLarge.code

namespace Server

variable {data : SongData σ} {R : Type}

def withPlaylist (s : Server (World data R)) (pl : Playlist σ) : Server (World data R) :=
  { s with world := { s.world with playlist := pl } }

def withRest (s : Server (World data R)) (rest : R) : Server (World data R) :=
  { s with world := { s.world with rest := rest } }

def onPlaylist (s : Server (World data R))
    (edit : Playlist σ → Except Fault (Playlist σ × Status)) : Handled ℤ R data :=
  match edit s.world.playlist with
  | .ok (pl, status) => .ok (status.code, s.withPlaylist pl)
  | .error fault => .error (.playlist fault)

def dbWalk (s : Server (World data R)) (uri : Text)
    (visit : σ → Server (World data R) → Handled ℤ R data) : Handled ℤ R data :=
  match s.world.database with
  | none => .ok (-MpdErr.dbDisabled.code, s)
  | some db =>
    match db.root.lookupDirectory uri with
    | some directory => directoryWalk visit directory s
    | none =>
      match db.root.lookupSong uri with
      | some song => visit song s
      | none => .ok (-MpdErr.dbNoent.code, s)

def consult (sys : System data R) (handler : Handler) (s : Server (World data R))
    (argv : List Text) : Handled ℤ R data := do
  let (ret, text, world) ← sys.call handler argv s.world
  pure (ret, { s.write text with world := world })

def fail (p : Platform) (s : Server (World data R)) (error : Ack) (text : Text) :
    Reply R data := do
  let s ← s.commandError p error text
  pure (.error, s)

def assert (p : Platform) (condition : Bool) (fault : CommandFault) : Except CommandFault Unit :=
  if p.assertions ∧ condition = false then .error fault else .ok ()

end Server

/-! ### A system with little in it -/

def plainData : SongData ℕ where
  uri := Nat.toDigits 10
  uri_ne_nil _ := Nat.toDigits_ne_nil
  nul_notMem_uri _ h := nomatch Nat.isDigit_of_mem_toDigits (by decide) (by decide) h
  tag _ := some [(.artist, "a".toList)]
  strayRead := false

def quietSystem : System plainData Unit where
  euid := 100
  stat _ := some ⟨200, 0o600⟩
  loadFile _ := some 7
  remoteNew _ := 0
  supportedScheme _ := false
  songInfo _ := []
  passwords _ := none
  musicDirectory := none
  setOutput _ _ _ := none
  subscribe _ _ := (.ok, ())
  unsubscribe _ _ := none
  stickerEnabled := false
  stickerSong _ w := .ok (none, [], w)
  call _ _ w := .ok (0, [], w)
  other _ s _ := .ok (.ok, s)

theorem leavesPlaylist_quietSystem : quietSystem.LeavesPlaylist :=
  ⟨fun _ _ _ => .ok rfl, fun _ _ => .ok rfl⟩

def Server.stranger (permission : ℕ) : Server (World plainData Unit) where
  world := ⟨.numbered .stop fun _ => 0, none, [], ()⟩
  permission := permission
  uid := -1
  currentCommand := none
  commandListNum := 0
  output := []

end Mpd
