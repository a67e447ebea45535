import Mpd.Database.SongFile
import Mpd.State.TextFile

/-!
# Updating the database from the file system

`update_walk` compares the directories in memory with those of the music directory:
`update_walk.c`, and what it calls in `update_db.c`, `update_song.c`, `update_container.c`,
`update_archive.c`, `update_io.c`, `exclude.c` and `playlist_vector.c`.

The file system stays as it is during the walk. What plugins find in files belongs to it.
Directories are a tree here, and the place in the tree takes the part of the pointer to the parent:
the walk is at a directory, with what is known of those above it (`Visit`). So a song that is listed
in a directory has that directory as its parent, and `Song.parent` is not used. While a subdirectory
is being walked nobody looks at the list that it is in, and so it is put there, or removed from it,
afterwards.

Two things are added that the source does not have. There is a bound for the depth of the
recursion, and the identities of the directories that are being walked are passed down, so that it
is noticed if one of them is entered again.
-/

namespace Mpd

namespace Walk

/-! ### Files -/

inductive FileType
  | regular
  | directory
  | other
  deriving DecidableEq, Repr

/-- What identifies a file: `st_ino` and `st_dev`. -/
structure FileId where
  inode : UInt64
  device : UInt64
  deriving DecidableEq, Repr

/-- `struct stat`, as far as it is looked at. -/
structure Stat where
  type : FileType
  id : FileId
  mtime : Int64

inductive Link
  /-- the file is not a symbolic link -/
  | notALink
  /-- another error -/
  | failed
  | target (path : Text)

/-- `struct decoder_plugin`. -/
structure Decoder where
  /-- `container_scan`: the tracks in a file -/
  containerScan : Option (Option Text → List Text)
  /-- the tag that `decoder_plugin_scan_file` makes for a track -/
  scanTrack : Option Text → Tag

/-- The file system, the plugins and the configuration. -/
structure Files where
  musicDirFs : Text
  musicDirUtf8 : Text
  /-- `utf8_to_fs_charset` -/
  toFs : Text → Text
  /-- `fs_charset_to_utf8` -/
  toUtf8 : Text → Text
  stat : Text → Option Stat
  /-- `opendir` and `readdir` -/
  readdir : Text → Option (List Text)
  readlink : Text → Link
  /-- `access` succeeds, or fails with an error other than `EACCES` -/
  readable : Text → Bool
  /-- what is in a file that can be opened -/
  read : Text → Option Text
  /-- `g_pattern_match_string` -/
  patternMatch : Text → Text → Bool
  followInsideSymlinks : Bool
  followOutsideSymlinks : Bool
  /-- `decoder_plugin_from_suffix` -/
  decoder : Text → Option Decoder
  /-- the tag that the plugins for a suffix find in a file -/
  scanTag : Text → Text → Option Tag
  /-- `archive_plugin_from_suffix`, and what is in an archive that can be opened -/
  archive : Text → Option (Text → Option (List Text))
  /-- `playlist_suffix_supported` -/
  playlistSuffix : Text → Bool

def pathMax : ℕ := 4096

def deviceInarchive : UInt64 := -1

def deviceContainer : UInt64 := -2

def uriGetSuffix (uri : Text) : Option Text :=
  match Text.cutLast '.' uri with
  | none => none
  | some (_, suffix) => if '/' ∈ suffix ∨ '\\' ∈ suffix then none else some suffix

def basename (path : Text) : Text :=
  if path = [] then ['.']
  else
    match path.reverse.dropWhile (· = '/') with
    | [] => ['/']
    | rest => (rest.takeWhile (· ≠ '/')).reverse

/-! ### Directories in memory -/

/-- What a directory is called, and which one it is in the file system. `directory_new` asserts that
the root directory has an empty path, and no other directory. -/
structure Info where
  path : Text
  id : FileId
  haveStat : Bool

/-- `struct directory`. -/
structure Folder extends Info where
  mtime : Int64
  children : List Folder
  songs : List Song
  playlists : List PlaylistMetadata

/-- Replace the first entry with the property, or append the new one. -/
def upsert {α : Type} (p : α → Bool) (a : α) : List α → List α
  | [] => [a]
  | b :: l => if p b then a :: l else b :: upsert p a l

def Info.setStat (info : Info) (st : Stat) : Info :=
  { info with id := st.id, haveStat := true }

namespace Folder

def name (d : Folder) : Text :=
  match Text.cutLast '/' d.path with
  | some (_, base) => base
  | none => d.path

variable (d : Folder) (name : Text)

def getChild : Option Folder :=
  d.children.find? fun child => child.name = name

def putChild (child : Folder) : List Folder :=
  upsert (fun c => c.name = name) child d.children

def deleteChild : List Folder :=
  d.children.eraseP fun c => c.name = name

def getSong : Option Song :=
  d.songs.find? fun song => song.uri = name

def deleteSong : List Song :=
  d.songs.eraseP fun song => song.uri = name

def getPlaylist : Option PlaylistMetadata :=
  d.playlists.find? fun pm => pm.name = name

def childPath : Text :=
  if d.path = [] then name else d.path ++ '/' :: name

end Folder

inductive WalkFault
  /-- an assertion of the source fails -/
  | assertion
  /-- a directory is entered that is being walked -/
  | reentered
  /-- the recursion is deeper than its bound -/
  | endless
  deriving DecidableEq, Repr

namespace Folder

def newChild (d : Folder) (name : Text) : Except WalkFault Folder :=
  if name = [] then .error .assertion
  else
    .ok
      { path := d.childPath name
        id := ⟨0, 0⟩
        haveStat := false
        mtime := 0
        children := []
        songs := []
        playlists := [] }

def makeChild (d : Folder) (name : Text) : Except WalkFault Folder :=
  match d.getChild name with
  | some child => .ok child
  | none => d.newChild name

end Folder

/-- The walk is at a directory: the directory, those above it, and the global flag `modified`. -/
structure Visit where
  here : Folder
  above : List Info
  modified : Bool

namespace Visit

def enter (v : Visit) (child : Folder) : Visit where
  here := child
  above := v.here.toInfo :: v.above
  modified := v.modified

def infos (v : Visit) : List Info :=
  v.here.toInfo :: v.above

def setInfos (v : Visit) (infos : List Info) : Visit where
  here :=
    { v.here with
      id := (infos.headD v.here.toInfo).id
      haveStat := (infos.headD v.here.toInfo).haveStat }
  above := infos.tail
  modified := v.modified

def leave (v w : Visit) (children : List Folder) : Visit :=
  let v := v.setInfos w.above
  { v with here := { v.here with children := children }, modified := w.modified }

def setMtime (v : Visit) (mtime : Int64) : Visit :=
  { v with here := { v.here with mtime := mtime } }

def dropSong (v : Visit) (name : Text) : Visit :=
  { v with here := { v.here with songs := v.here.deleteSong name } }

def addSong (v : Visit) (song : Song) : Visit :=
  { v with here := { v.here with songs := v.here.songs ++ [song] }, modified := true }

end Visit

section Source

variable (files : Files) (discard : Bool)

/-! ### Paths -/

def mapDirectoryFs (path : Text) : Text :=
  if path = [] then files.musicDirFs else files.musicDirFs ++ '/' :: files.toFs path

def mapDirectoryChildFs (path name : Text) : Option Text :=
  if name = [] ∨ '/' ∈ name ∨ name = ['.'] ∨ name = ['.', '.'] then none
  else some (mapDirectoryFs files path ++ '/' :: files.toFs name)

def statDirectory (path : Text) : Option Stat :=
  files.stat (mapDirectoryFs files path)

def statDirectoryChild (path name : Text) : Option Stat :=
  (mapDirectoryChildFs files path name).bind files.stat

def directoryExists (d : Folder) : Bool :=
  let test :=
    if d.id.device = deviceInarchive ∨ d.id.device = deviceContainer then FileType.regular
    else FileType.directory
  (statDirectory files d.path).any fun st => st.type = test

def directoryChildIsRegular (path name : Text) : Bool :=
  (statDirectoryChild files path name).any fun st => st.type = .regular

def directoryChildAccess (path name : Text) : Bool :=
  match mapDirectoryChildFs files path name with
  | none => true
  | some pathFs => files.readable pathFs

/-! ### What is left out -/

def excludeLines : ℕ → Text → List Text
  | 0, _ => []
  | rounds + 1, file =>
    match LineBuffer.gets 1024 file with
    | none => []
    | some (line, file) => line :: excludeLines rounds file

def excludePattern (line : Text) : Text :=
  Text.chomp (Text.chug ((Text.beforeNul line).takeWhile (· ≠ '#')))

def excludeListLoad (pathFs : Text) : List Text :=
  match files.read pathFs with
  | none => []
  | some file =>
    (((excludeLines (file.length + 1) file).map excludePattern).filter (· ≠ [])).reverse

def excludeListCheck (patterns : List Text) (nameFs : Text) : Bool :=
  patterns.any fun pattern => files.patternMatch pattern nameFs

def skipPath (path : Text) : Bool :=
  path = ['.'] || path = ['.', '.'] || path.contains '\n'

def leavesMusicDir : ℕ → Text → Bool
  | 0, '.' :: '.' :: '/' :: _ => true
  | parents + 1, '.' :: '.' :: '/' :: p => leavesMusicDir parents p
  | parents, '.' :: '/' :: p => leavesMusicDir parents p
  | _, _ => false

def skipSymlink (parents : ℕ) (path name : Text) : Bool :=
  match mapDirectoryChildFs files path name with
  | none => true
  | some pathFs =>
    match files.readlink pathFs with
    | .failed => true
    -- don't skip if this is not a symlink
    | .notALink => false
    | .target buffer =>
      if pathMax ≤ buffer.length then true
      else if !files.followInsideSymlinks && !files.followOutsideSymlinks then true
      else if files.followInsideSymlinks && files.followOutsideSymlinks then false
      else if buffer.head? = some '/' then
        if (files.musicDirUtf8 ++ ['/']).isPrefixOf buffer then !files.followInsideSymlinks
        else !files.followOutsideSymlinks
      else if leavesMusicDir parents buffer then !files.followOutsideSymlinks
      else !files.followInsideSymlinks

/-! ### Deleting what is not there -/

def deleteNameIn (name : Text) (v : Visit) : Visit where
  here :=
    { v.here with
      children := v.here.deleteChild name
      songs := v.here.deleteSong name
      playlists := v.here.playlists.eraseP fun pm => pm.name = name }
  above := v.above
  modified := v.modified || (v.here.getChild name).isSome || (v.here.getSong name).isSome

def removeExcludedFromDirectory (patterns : List Text) (v : Visit) : Visit :=
  let children := v.here.children.filter fun c =>
    !excludeListCheck files patterns (files.toFs c.name)
  let songs := v.here.songs.filter fun s => !excludeListCheck files patterns (files.toFs s.uri)
  { v with
    here := { v.here with children := children, songs := songs }
    modified := v.modified || children.length < v.here.children.length ||
      songs.length < v.here.songs.length }

def purgeDeletedFromDirectory (v : Visit) : Visit :=
  let children := v.here.children.filter (directoryExists files)
  let songs := v.here.songs.filter fun s => directoryChildIsRegular files v.here.path s.uri
  let playlists := v.here.playlists.filter fun pm =>
    directoryChildIsRegular files v.here.path pm.name
  { v with
    here := { v.here with children := children, songs := songs, playlists := playlists }
    modified := v.modified || children.length < v.here.children.length ||
      songs.length < v.here.songs.length }

/-! ### Songs -/

def songFileUpdate (path : Text) (song : Song) : Bool × Song :=
  match uriGetSuffix song.uri with
  | none => (false, song)
  | some suffix =>
    if (files.decoder suffix).isNone then (false, song)
    else
      match mapDirectoryChildFs files path song.uri with
      | none => (false, song)
      | some pathFs =>
        match files.stat pathFs with
        | none => (false, { song with tag := none })
        | some st =>
          if st.type ≠ .regular then (false, { song with tag := none })
          else
            let tag := files.scanTag suffix pathFs
            (tag.isSome, { song with mtime := st.mtime, tag := tag })

def songFileUpdateInarchive (song : Song) : Bool × Song :=
  match uriGetSuffix song.uri with
  | none => (false, song)
  | some suffix =>
    if (files.decoder suffix).isNone then (false, song)
    else (true, { song with tag := some Tag.new })

def songFileLoad (d : Folder) (name : Text) : Except WalkFault (Option Song) :=
  if '\n' ∈ name then .error .assertion
  else
    let song : Song := ⟨name, none, none, 0, 0, 0⟩
    let (loaded, song) :=
      if d.id.device = deviceInarchive then songFileUpdateInarchive files song
      else songFileUpdate files d.path song
    .ok (if loaded then some song else none)

def containerSongs (plugin : Decoder) (contdir : Folder) (mtime : Int64) :
    List Text → Except WalkFault (List Song)
  | [] => .ok []
  | vtrack :: tracks =>
    if vtrack.head? = some '/' then .error .assertion
    else do
      let songs ← containerSongs plugin contdir mtime tracks
      let tag := plugin.scanTrack (mapDirectoryChildFs files contdir.path vtrack)
      .ok (⟨vtrack, none, some tag, mtime, 0, 0⟩ :: songs)

def updateContainerFile (name : Text) (st : Stat) (plugin : Decoder) (v : Visit) :
    Except WalkFault (Bool × Visit) :=
  match plugin.containerScan with
  | none => .ok (false, v)
  | some containerScan =>
    -- `make_directory_if_modified`
    let directory := v.here.getChild name
    if (directory.any fun d => d.mtime = st.mtime) && !discard then .ok (true, v)
    else do
      let v := { v with
        here := { v.here with children := v.here.deleteChild name }
        modified := v.modified || directory.isSome }
      let contdir ← v.here.makeChild name
      let contdir :=
        { contdir with mtime := st.mtime, id := { contdir.id with device := deviceContainer } }
      match containerScan (mapDirectoryChildFs files v.here.path name) with
      | [] => .ok (false, { v with here := { v.here with children := v.here.deleteChild name } })
      | tracks => do
        let songs ← containerSongs files plugin contdir st.mtime tracks
        let contdir := { contdir with songs := contdir.songs ++ songs }
        .ok (true, { v with
          here := { v.here with children := v.here.putChild name contdir }
          modified := true })

def updateSong (name : Text) (st : Stat) (v : Visit) : Except WalkFault Visit :=
  match v.here.getSong name with
  | none => do
    let song ← songFileLoad files v.here name
    match song with
    | none => .ok v
    | some song => .ok (v.addSong song)
  | some song =>
    if st.mtime ≠ song.mtime ∨ discard then
      let (updated, song) := songFileUpdate files v.here.path song
      .ok { v with
        here :=
          { v.here with
            songs :=
              if updated then upsert (fun s => s.uri = name) song v.here.songs
              else v.here.deleteSong name }
        modified := true }
    else .ok v

def updateSongFile2 (name : Text) (st : Stat) (plugin : Decoder) (v : Visit) :
    Except WalkFault Visit :=
  let song := v.here.getSong name
  if !directoryChildAccess files v.here.path name then .ok (v.dropSong name)
  else do
    let (contains, v) ← (if (song.any fun s => st.mtime = s.mtime) && !discard then .ok (false, v)
      else updateContainerFile files discard name st plugin v)
    if contains then .ok (v.dropSong name)
    else updateSong files discard name st v

/-! ### Archives -/

def updateArchiveTree : List Text → Visit → Except WalkFault Visit
  | [], v => .ok v
  | [name], v =>
    -- archive returned directory only
    if name = [] then .ok v
    else if (v.here.getSong name).isSome then .ok v
    else do
      let song ← songFileLoad files v.here name
      match song with
      | none => .ok v
      | some song => .ok (v.addSong song)
  | name :: next :: parts, v => do
    let subdir ← v.here.makeChild name
    let subdir := { subdir with id := { subdir.id with device := deviceInarchive } }
    let w ← updateArchiveTree (next :: parts) (v.enter subdir)
    .ok (v.leave w (v.here.putChild name w.here))

def updateArchiveTrees : List Text → Visit → Except WalkFault Visit
  | [], v => .ok v
  | filepath :: filepaths, v => do
    let v ← updateArchiveTree files (filepath.splitOn '/') v
    updateArchiveTrees filepaths v

def updateArchiveFile2 (name : Text) (st : Stat) (scan : Text → Option (List Text)) (v : Visit) :
    Except WalkFault Visit :=
  let directory := v.here.getChild name
  if (directory.any fun d => d.mtime = st.mtime) && !discard then .ok v
  else
    match (mapDirectoryChildFs files v.here.path name).bind scan with
    | none => .ok v
    | some filepaths => do
      let child ← v.here.makeChild name
      let child :=
        if directory.isSome then child
        else { child with id := { child.id with device := deviceInarchive } }
      let w ← updateArchiveTrees files filepaths ((v.enter child).setMtime st.mtime)
      .ok (v.leave w (v.here.putChild name w.here))

/-! ### Files and directories -/

def updatePlaylistFile2 (name : Text) (st : Stat) (v : Visit) : Visit :=
  if (v.here.getPlaylist name).any fun pm => pm.mtime = st.mtime then v
  else
    { v with
      here :=
        { v.here with
          playlists := upsert (fun pm => pm.name = name) ⟨name, st.mtime⟩ v.here.playlists }
      modified := true }

def updateRegularFile (name : Text) (st : Stat) (v : Visit) : Except WalkFault Visit :=
  match uriGetSuffix name with
  | none => .ok v
  | some suffix =>
    match files.decoder suffix with
    | some plugin => updateSongFile2 files discard name st plugin v
    | none =>
      match files.archive suffix with
      | some scan => updateArchiveFile2 files discard name st scan v
      | none =>
        if files.playlistSuffix suffix then .ok (updatePlaylistFile2 name st v) else .ok v

def findInodeAncestor (id : FileId) : List Info → Bool × List Info
  | [] => (false, [])
  | info :: above =>
    match if info.haveStat then some info else (statDirectory files info.path).map info.setStat with
    | none => (true, info :: above)
    | some info =>
      if info.id = id then (true, info :: above)
      else
        let (found, above) := findInodeAncestor id above
        (found, info :: above)

def updateDirectoryChild (recurse : Stat → Visit → Except WalkFault (Bool × Visit)) (name : Text)
    (st : Stat) (v : Visit) : Except WalkFault Visit :=
  match st.type with
  | .regular => updateRegularFile files discard name st v
  | .directory =>
    let (found, infos) := findInodeAncestor files st.id v.infos
    let v := v.setInfos infos
    if found then .ok v
    else do
      let subdir ← v.here.makeChild name
      let (walked, w) ← recurse st (v.enter subdir)
      .ok (v.leave w (if walked then v.here.putChild name w.here else v.here.deleteChild name))
  | .other => .ok v

def updateName (recurse : Stat → Visit → Except WalkFault (Bool × Visit)) (name : Text)
    (v : Visit) : Except WalkFault Visit :=
  if skipSymlink files v.above.length v.here.path name then .ok (deleteNameIn name v)
  else
    match statDirectoryChild files v.here.path name with
    | some st => updateDirectoryChild files discard recurse name st v
    | none => .ok (deleteNameIn name v)

def updateEntries (recurse : Stat → Visit → Except WalkFault (Bool × Visit))
    (patterns : List Text) : List Text → Visit → Except WalkFault Visit
  | [], v => .ok v
  | name :: names, v =>
    if skipPath name || excludeListCheck files patterns name then
      updateEntries recurse patterns names v
    else do
      let v ← updateName files discard recurse (files.toUtf8 name) v
      updateEntries recurse patterns names v

def updateDirectory : ℕ → List FileId → Stat → Visit → Except WalkFault (Bool × Visit)
  | levels, stack, st, v =>
    if st.type ≠ .directory then .error .assertion
    else if st.id ∈ stack then .error .reentered
    else
      match levels with
      | 0 => .error .endless
      | levels + 1 =>
        let v := { v with here := { v.here with toInfo := v.here.toInfo.setStat st } }
        let pathFs := mapDirectoryFs files v.here.path
        match files.readdir pathFs with
        | none => .ok (false, v)
        | some names => do
          let patterns := excludeListLoad files (pathFs ++ "/.mpdignore".toList)
          let v := if patterns = [] then v else removeExcludedFromDirectory files patterns v
          let v := purgeDeletedFromDirectory files v
          let v ← updateEntries files discard (updateDirectory levels (st.id :: stack)) patterns
            names v
          .ok (true, v.setMtime st.mtime)

/-! ### The walk -/

def withUriParent (act : Visit → Except WalkFault Visit) :
    List Text → Visit → Except WalkFault Visit
  | [], v => act v
  | name :: parts, v =>
    -- the loop ends with an empty name, since the rest of the path has been cut off
    if name = [] then act v
    else
      match v.here.getChild name with
      | some child => do
        let w ← withUriParent act parts (v.enter child)
        .ok (v.leave w (v.here.putChild name w.here))
      | none =>
        match statDirectoryChild files v.here.path name with
        | none => .ok v
        | some st =>
          let (found, infos) := findInodeAncestor files st.id v.infos
          let v := v.setInfos infos
          if found then .ok v
          else if skipSymlink files v.above.length v.here.path name then .ok v
          else do
            let v := v.dropSong name
            let child ← v.here.newChild name
            let child := { child with toInfo := child.toInfo.setStat st }
            let w ← withUriParent act parts (v.enter child)
            .ok (v.leave w (v.here.putChild name w.here))

def updateUri (levels : ℕ) (uri : Text) (v : Visit) : Except WalkFault Visit :=
  withUriParent files
    (updateName files discard (updateDirectory files discard levels []) (basename uri))
    (uri.splitOn '/').dropLast v

def updateWalk (levels : ℕ) (path : Text) (root : Folder) : Except WalkFault Visit :=
  let v : Visit := ⟨root, [], false⟩
  if Directory.isRootDirectory path then
    match statDirectory files root.path with
    | none => .ok v
    | some st => do
      let (_, v) ← updateDirectory files discard levels [] st v
      .ok v
  else updateUri files discard levels path v

end Source

end Walk

end Mpd
