import Mpd.Database.Node
import Mpd.General.Number

/-!
# The database file

`db/simple_db_plugin.c`: the tree of directories is saved to a text file and loaded from it. A file
is a sequence of lines. Directories, songs and playlists begin and end with lines of their own; the
lines between them say what they contain.

Loading a directory reads lines until the line that ends the directory, or the end of the file. A
subdirectory is added to its parent before it is loaded, and deleted again if that fails.

Assertions are faults. Errors of the file system are left out; how a file is divided into lines is
the subject of `Mpd.State.TextFile`.
-/

namespace Text

variable {c : Char} {s t label line : Text}

def behind : Text → Text → Option Text
  | [], s => some s
  | _ :: _, [] => none
  | a :: label, b :: s => if a = b then behind label s else none

@[simp]
theorem behind_append (label s : Text) : behind label (label ++ s) = some s := by
  induction label with
  | nil => rfl
  | cons a label ih => rw [List.cons_append, behind, if_pos rfl, ih]

def cutFirst (c : Char) (s : Text) : Option (Text × Text) :=
  if c ∈ s then some (s.takeWhile (· ≠ c), (s.dropWhile (· ≠ c)).tail) else none

theorem cutFirst_append (h : c ∉ s) : cutFirst c (s ++ c :: t) = some (s, t) := by
  have hne : ∀ ch ∈ s, decide (ch ≠ c) = true := fun ch hch =>
    decide_eq_true fun heq => h (heq ▸ hch)
  rw [cutFirst, if_pos (by simp), List.takeWhile_append_of_pos hne,
    List.dropWhile_append_of_pos hne]
  simp

end Text

namespace Mpd

inductive DbError
  /-- `DB_CORRUPT` -/
  | corrupt
  /-- `DB_MALFORM` -/
  | malform
  /-- `DB_DUP` -/
  | dup
  deriving DecidableEq, Repr

inductive DbFault
  /-- `assert(*name_utf8 != 0)` in `directory_new_child` -/
  | emptyName
  /-- the assertions of `song_file_new` and `song_alloc` about the URI -/
  | badUri
  /-- the rounds of the loop do not suffice; see `loadLoop` -/
  | rounds
  deriving DecidableEq, Repr

/-- What the file depends on besides the tree. -/
structure DbConfig where
  /-- `VERSION` -/
  version : Text
  /-- `path_get_fs_charset` -/
  charset : Option Text
  /-- `ignore_tag_items` -/
  ignored : TagType → Bool

namespace SimpleDb

/-! ### The lines -/

def infoBegin : Text := "info_begin".toList

def infoEnd : Text := "info_end".toList

def formatLabel : Text := "format: ".toList

def versionLabel : Text := "mpd_version: ".toList

def charsetLabel : Text := "fs_charset: ".toList

def tagLabel : Text := "tag: ".toList

def directoryDir : Text := "directory: ".toList

def mtimeLabel : Text := "mtime: ".toList

def directoryBegin : Text := "begin: ".toList

def directoryEnd : Text := "end: ".toList

def songBegin : Text := "song_begin: ".toList

def timeLabel : Text := "Time: ".toList

def playlistYes : Text := "Playlist: yes".toList

def rangeLabel : Text := "Range: ".toList

def songEnd : Text := "song_end".toList

def playlistBegin : Text := "playlist_begin: ".toList

def playlistEnd : Text := "playlist_end".toList

/-! ### Saving -/

def tagSave (tag : Tag) : List Text :=
  (if 0 ≤ tag.time then [timeLabel ++ Text.intText tag.time.toInt] else []) ++
    (if tag.hasPlaylist then [playlistYes] else []) ++
    tag.items.map fun item => item.type.itemName ++ ": ".toList ++ item.value

def rangeSave (song : Song) : List Text :=
  if 0 < song.endMs then
    [rangeLabel ++ Nat.toDigits 10 song.startMs.toNat ++ '-' :: Nat.toDigits 10 song.endMs.toNat]
  else if 0 < song.startMs then [rangeLabel ++ Nat.toDigits 10 song.startMs.toNat ++ ['-']]
  else []

def songSave (song : Song) : List Text :=
  (songBegin ++ song.uri) :: (rangeSave song ++ (song.tag.map tagSave).getD [] ++
    [mtimeLabel ++ Text.intText song.mtime.toInt, songEnd])

def playlistSave (pm : PlaylistMetadata) : List Text :=
  [playlistBegin ++ pm.name, mtimeLabel ++ Text.intText pm.mtime.toInt, playlistEnd]

def pathGetBasename (path : Text) : Text :=
  if path = [] then ['.']
  else
    -- slashes at the end are not part of the name
    let stripped := path.rdropWhile (· = '/')
    if stripped = [] then ['/']
    else
      match Text.cutLast '/' stripped with
      | some (_, base) => base
      | none => stripped

mutual

def directorySave : Node → List Text
  | ⟨_, path, parent, mtime, children, songs, playlists⟩ =>
    (if parent.isNone then []
      else [mtimeLabel ++ Nat.toDigits 10 mtime.toUInt64.toNat, directoryBegin ++ path]) ++
      childrenSave children ++ songs.flatMap songSave ++ playlists.flatMap playlistSave ++
      if parent.isNone then [] else [directoryEnd ++ path]

def childrenSave : List Node → List Text
  | [] => []
  | child :: children =>
    (directoryDir ++ pathGetBasename child.path) :: directorySave child ++ childrenSave children

end

def tagTypes : List TagType :=
  tagItemNames.map Prod.fst

def charsetText (config : DbConfig) : Text :=
  config.charset.getD "(null)".toList

def saveLines (config : DbConfig) (root : Node) : List Text :=
  [infoBegin, formatLabel ++ ['1'], versionLabel ++ config.version,
      charsetLabel ++ charsetText config] ++
    (tagTypes.filter fun type => !config.ignored type).map
      (fun type => tagLabel ++ type.itemName) ++
    infoEnd :: directorySave root

def saveInternal (config : DbConfig) (root : Node) : Text :=
  (saveLines config root).flatMap fun line => line ++ ['\n']

/-! ### Loading songs and playlists -/

def songNew (uri : Text) (parent : Address) : Song where
  uri := uri
  parent := some parent
  tag := none
  mtime := 0
  startMs := 0
  endMs := 0

def songSet [Utf8] (config : DbConfig) (song : Song) (key value : Text) : Option Song :=
  let tag := song.tag.getD .new
  match Tag.nameParse key with
  | some type => some { song with tag := some (tag.addItem config.ignored type value) }
  | none =>
    if key = "Time".toList then
      some { song with tag := some { tag with time := .ofInt (Text.atoi value) } }
    else if key = "Playlist".toList then
      some { song with tag := some { tag with hasPlaylist := value = "yes".toList } }
    else if key = "mtime".toList then some { song with mtime := .ofInt (Text.atoi value) }
    else if key = "Range".toList then
      match Text.strtoul value with
      | (start, '-' :: rest) =>
        some { song with startMs := .ofNat start, endMs := .ofNat (Text.strtoul rest).1 }
      | (start, _) => some { song with startMs := .ofNat start }
    else none

def field (line : Text) : Option (Text × Text) :=
  match Text.cutFirst ':' line with
  | some (key, value) => if key = [] then none else some (key, Text.chug value)
  | none => none

def songLoad [Utf8] (config : DbConfig) : Song → List Text → Option Song × List Text
  | song, [] => (some song, [])
  | song, line :: lines =>
    if line = songEnd then (some song, lines)
    else
      match (field line).bind fun (key, value) => songSet config song key value with
      | some song => songLoad config song lines
      | none => (none, lines)

def playlistLoad : Int64 → List Text → Option Int64 × List Text
  | mtime, [] => (some mtime, [])
  | mtime, line :: lines =>
    if line = playlistEnd then (some mtime, lines)
    else
      match field line with
      | some (key, value) =>
        if key = "mtime".toList then playlistLoad (.ofInt (Text.strtol value).1) lines
        else (none, lines)
      | none => (none, lines)

def updateOrAdd (name : Text) (mtime : Int64) : List PlaylistMetadata → List PlaylistMetadata
  | [] => [⟨name, mtime⟩]
  | pm :: pv => if pm.name = name then ⟨pm.name, mtime⟩ :: pv else pm :: updateOrAdd name mtime pv

/-! ### Loading directories -/

inductive Return
  /-- `simple_db_directory_load` -/
  | load (directory : Address) (error : Option DbError)
  /-- `simple_db_directory_load_subdir` -/
  | loadSubdir (parent : Address) (error : Option DbError)
  deriving DecidableEq, Repr

def Return.error : Return → Option DbError
  | load _ error => error
  | loadSubdir _ error => error

/-- The lines still to be read, the next free address, and, as a history variable, what has been
returned, in the order of time. -/
structure Loading where
  lines : List Text
  next : Address
  returns : List Return

def Loading.returned (st : Loading) (r : Return) : Loading :=
  { st with returns := st.returns ++ [r] }

abbrev Load : Type :=
  Node → Loading → Except DbFault (Option DbError × Node × Loading)

def beginRead (child : Node) : List Text → Except DbError Node × List Text
  | [] => (.error .corrupt, [])
  | line :: lines =>
    if (Text.behind directoryBegin line).isSome then (.ok child, lines)
    else (.error .malform, lines)

def headRead (child : Node) : List Text → Except DbError Node × List Text
  | [] => (.error .corrupt, [])
  | line :: lines =>
    match Text.behind mtimeLabel line with
    | some value =>
      beginRead { child with mtime := (UInt64.ofNat (Text.strtoul value).1).toInt64 } lines
    | none => beginRead child (line :: lines)

def directoryLoadSubdir (load : Load) (parent : Node) (name : Text) (st : Loading) :
    Except DbFault (Option DbError × Node × Loading) :=
  if (parent.getChild name).isSome then .ok (some .dup, parent, st)
  else if name = [] then .error .emptyName
  else
    let child := parent.newChild st.next name
    let parent := parent.addChild child
    match headRead child st.lines with
    | (.error e, lines) =>
      .ok (some e, parent.delete child, { st with lines := lines, next := st.next + 1 })
    | (.ok child, lines) => do
      let (error, child, st) ← load child { st with lines := lines, next := st.next + 1 }
      let parent := parent.update child
      .ok (error, if error.isSome then parent.delete child else parent, st)

def loadSong [Utf8] (config : DbConfig) (d : Node) (name : Text) (st : Loading) :
    Except DbFault (Option DbError × Node × Loading) :=
  if (d.getSong name).isSome then .ok (some .dup, d, st)
  else if name = [] ∨ name.head? = some '/' then .error .badUri
  else
    match songLoad config (songNew name d.address) st.lines with
    | (some song, lines) => .ok (none, d.addSong song, { st with lines := lines })
    | (none, lines) => .ok (some .malform, d, { st with lines := lines })

def loadPlaylist (d : Node) (name : Text) (st : Loading) : Option DbError × Node × Loading :=
  match playlistLoad 0 st.lines with
  | (some mtime, lines) =>
    (none, { d with playlists := updateOrAdd name mtime d.playlists }, { st with lines := lines })
  | (none, lines) => (some .malform, d, { st with lines := lines })

def loadEntry [Utf8] (config : DbConfig) (load : Load) (d : Node) (line : Text) (st : Loading) :
    Except DbFault (Option DbError × Node × Loading) :=
  match Text.behind directoryDir line with
  | some name => do
    let (error, d, st) ← directoryLoadSubdir load d name st
    .ok (error, d, st.returned (.loadSubdir d.address error))
  | none =>
    match Text.behind songBegin line with
    | some name => loadSong config d name st
    | none =>
      match Text.behind playlistBegin line with
      | some name => .ok (loadPlaylist d name st)
      | none => .ok (some .malform, d, st)

def logged (load : Load) : Load := fun d st => do
  let (error, d, st) ← load d st
  .ok (error, d, st.returned (.load d.address error))

def loadLoop [Utf8] (config : DbConfig) : ℕ → Load
  | 0, _, _ => .error .rounds
  | rounds + 1, d, st =>
    match st.lines with
    | [] => .ok (none, d, st)
    | line :: lines =>
      if (Text.behind directoryEnd line).isSome then .ok (none, d, { st with lines := lines })
      else do
        let (error, d, st) ←
          loadEntry config (logged (loadLoop config rounds)) d line { st with lines := lines }
        if error.isSome then .ok (error, d, st) else loadLoop config rounds d st

def directoryLoad [Utf8] (config : DbConfig) : Load := fun d st =>
  logged (loadLoop config (st.lines.length + 1)) d st

/-! ### Loading the file -/

/-- What the lines before the tree have said. -/
structure Header where
  format : ℤ
  foundCharset : Bool
  foundVersion : Bool
  tags : List TagType

def headerRead (config : DbConfig) (header : Header) (line : Text) : Option Header :=
  match Text.behind formatLabel line with
  | some value => some { header with format := Text.atoi value }
  | none =>
    if (Text.behind versionLabel line).isSome then
      if header.foundVersion then none else some { header with foundVersion := true }
    else
      match Text.behind charsetLabel line with
      | some charset =>
        if header.foundCharset then none
        else if config.charset.any fun old => charset ≠ old then none
        else some { header with foundCharset := true }
      | none =>
        match (Text.behind tagLabel line).bind Tag.nameParse with
        | some type => some { header with tags := type :: header.tags }
        | none => none

def headerLoad (config : DbConfig) : Header → List Text → Option Header × List Text
  | header, [] => (some header, [])
  | header, line :: lines =>
    if line = infoEnd then (some header, lines)
    else
      match headerRead config header line with
      | some header => headerLoad config header lines
      | none => (none, lines)

def Header.fits (config : DbConfig) (header : Header) : Bool :=
  header.format = 1 && tagTypes.all fun type => config.ignored type || type ∈ header.tags

def loadInternal [Utf8] (config : DbConfig) : Load := fun root st =>
  match st.lines with
  | [] => .ok (some .corrupt, root, st)
  | line :: lines =>
    if line ≠ infoBegin then .ok (some .corrupt, root, { st with lines := lines })
    else
      match headerLoad config ⟨0, false, false, []⟩ lines with
      | (none, lines) => .ok (some .malform, root, { st with lines := lines })
      | (some header, lines) =>
        if header.fits config then directoryLoad config root { st with lines := lines }
        else .ok (some .malform, root, { st with lines := lines })

end SimpleDb

end Mpd
