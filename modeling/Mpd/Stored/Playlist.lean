import Mpd.Command.Errors
import Mpd.Database.Directory
import Mpd.State.TextFile
import Mpd.Stored.StrList

/-!
# Stored playlists

`stored_playlist.c` keeps playlists as files in a directory: the name of a playlist is the name of
its file without the suffix. Names with a slash, a newline or a carriage return are not allowed.

Where a function that returns a pointer fails, it returns a negative error number as a pointer, and
`IS_ERR` recognises the numbers from -4095 to -1. `spl_check_name` answers with a positive number,
which `spl_map_to_fs` passes on: `IS_ERR` does not recognise it, and its callers take it for the
address of a path. `Pointer` keeps numbers and addresses apart, and the use of a number as an
address is a fault. `rejected_iff` says when a bad name is rejected nevertheless.

A playlist is read into a list of `util/queue_common.h` (`Mpd.Stored.StrList`), changed there and
written from it. The operating system may refuse any call. What it is asked to do with files is
recorded.
-/

namespace Mpd

open List

/-! ### Errors in pointers -/

inductive Pointer (α : Type)
  | object (a : α)
  | number (n : ℤ)

inductive StoredFault
  /-- a number is used as an address -/
  | badPointer
  /-- `map_directory_child_fs` asserts that there is a music directory -/
  | noMusicDirectory
  /-- a fault in the list of a playlist -/
  | list (fault : StrListFault)
  deriving DecidableEq, Repr

namespace Pointer

variable {α : Type}

def isErr : Pointer α → Bool
  | object _ => false
  | number n => 2 ^ 64 - 4095 ≤ n % 2 ^ 64

def ptrErr : Pointer α → ℤ
  | object _ => 0
  | number n => n

def deref : Pointer α → Except StoredFault α
  | object a => .ok a
  | number _ => .error .badPointer

end Pointer

/-! ### Files -/

inductive Errno
  | noent | other
  deriving DecidableEq, Repr

inductive OpenMode
  | read | write | append
  deriving DecidableEq, Repr

inductive FileCall
  | fopen (mode : OpenMode) (path : Text)
  | unlink (path : Text)
  | rename (source target : Text)
  deriving DecidableEq, Repr

/-- The file system, and what has been asked of it. Which calls it refuses may depend on the calls
before. -/
structure Disk where
  /-- the regular files, with their contents -/
  files : Text → Option Text
  isDirectory : Text → Bool
  refuses : List FileCall → FileCall → Option Errno
  /-- the outcome of `fstat` on an open file -/
  fstatFails : List FileCall → Text → Option Errno
  calls : List FileCall
  /-- `idle_add(IDLE_STORED_PLAYLIST)` has been called -/
  idle : Bool

namespace Disk

def call {α : Type} (d : Disk) (c : FileCall) (action : Disk → Except Errno α × Disk) :
    Except Errno α × Disk :=
  match d.refuses d.calls c with
  | some e => (.error e, { d with calls := d.calls ++ [c] })
  | none => action { d with calls := d.calls ++ [c] }

def fopen (d : Disk) (mode : OpenMode) (path : Text) : Except Errno Text × Disk :=
  d.call (.fopen mode path) fun d =>
    if d.isDirectory path then (if mode = .read then .ok [] else .error .other, d)
    else
      match mode, d.files path with
      | .read, some text => (.ok text, d)
      | .read, none => (.error .noent, d)
      | .write, _ => (.ok [], { d with files := Function.update d.files path (some []) })
      | .append, some text => (.ok text, d)
      | .append, none => (.ok [], { d with files := Function.update d.files path (some []) })

def unlink (d : Disk) (path : Text) : Except Errno Unit × Disk :=
  d.call (.unlink path) fun d =>
    match d.files path with
    | some _ => (.ok (), { d with files := Function.update d.files path none })
    | none => (.error (if d.isDirectory path then .other else .noent), d)

def rename (d : Disk) (source target : Text) : Except Errno Unit × Disk :=
  d.call (.rename source target) fun d =>
    match d.files source with
    | some text =>
      (.ok (), { d with
        files := Function.update (Function.update d.files source none) target (some text) })
    | none => (.error .noent, d)

def put (d : Disk) (path text : Text) : Disk :=
  { d with files := Function.update d.files path (some ((d.files path).getD [] ++ text)) }

def idleAdd (d : Disk) : Disk :=
  { d with idle := true }

end Disk

namespace Stored

/-! ### The source -/

/-- What is configured, and what is taken from GLib. -/
structure Config where
  /-- `playlist_dir_fs` -/
  playlistDir : Option Text
  /-- `music_dir_fs` -/
  musicDir : Option Text
  /-- `playlist_max_length` -/
  maxLength : ℕ
  /-- `playlist_saveAbsolutePaths` -/
  saveAbsolutePaths : Bool
  /-- `MPD_PATH_MAX` -/
  pathMax : ℕ
  /-- `utf8_to_fs_charset` -/
  toFs : Text → Text
  /-- `fs_charset_to_utf8` -/
  toUtf8 : Text → Text

/-- What is read of a song: its URI or file name, and the path of its directory in the database. The
root directory has the empty path. -/
structure ListedSong where
  uri : Text
  parent : Option Text

namespace ListedSong

def getUri (song : ListedSong) : Text :=
  match song.parent with
  | none => song.uri
  | some path => if path = [] then song.uri else Directory.buildFilename (some path) song.uri

end ListedSong

namespace Config

variable (c : Config)

def mapUriFs (uri : Text) : Option Text :=
  c.musicDir.map fun dir => Directory.buildFilename (some dir) (c.toFs uri)

def mapDirectoryChildFs (path name : Text) : Except StoredFault (Option Text) :=
  match c.musicDir with
  | none => .error .noMusicDirectory
  | some dir =>
    -- check for invalid or unauthorized base names
    if name = [] || name.contains '/' || name = ['.'] || name = ['.', '.'] then .ok none
    else
      let parentFs := if path = [] then some dir else c.mapUriFs path
      .ok (parentFs.map fun parentFs => Directory.buildFilename (some parentFs) (c.toFs name))

def mapFsToUtf8 (pathFs : Text) : Option Text :=
  let inMusicDir := c.musicDir.filter fun dir => (dir ++ ['/']).isPrefixOf pathFs
  match inMusicDir with
  | some dir =>
    -- remove musicDir prefix
    some (c.toUtf8 ((pathFs.drop (dir.length + 1)).dropWhile (· = '/')))
  | none =>
    -- not within musicDir
    if pathFs.head? = some '/' then none
    else some (c.toUtf8 pathFs)

def mapSplUtf8ToFs (name : Text) : Pointer Text :=
  match c.playlistDir with
  | none => .number 0
  | some dir => .object (Directory.buildFilename (some dir) (c.toFs (name ++ ".m3u".toList)))

def splMap : Pointer Text :=
  match c.playlistDir with
  | none => .number (-MpdErr.playlistDisabled.code)
  | some dir => .object dir

end Config

def splValidName (name : Text) : Bool :=
  !name.contains '/' && !name.contains '\n' && !name.contains '\r'

def splCheckName (name : Text) : ℤ :=
  if !splValidName name then MpdErr.playlistBadName.code else 0

def splMapToFs (c : Config) (name : Text) : Pointer Text :=
  let ret := if c.splMap.isErr then 0 else splCheckName name
  if ret ≠ 0 then .number ret
  else
    match c.mapSplUtf8ToFs name with
    | .number 0 => .number (-MpdErr.playlistBadName.code)
    | pathFs => pathFs

def playlistErrno : Errno → ℤ
  | .noent => -MpdErr.playlistNoSuchList.code
  | .other => -MpdErr.playlistErrno.code

def splOpen (c : Config) (mode : OpenMode) (name : Text) (d : Disk) :
    Except StoredFault (Except ℤ (Text × Text) × Disk) :=
  if c.splMap.isErr then .ok (.error (-MpdErr.playlistDisabled.code), d)
  else
    let pathFs := splMapToFs c name
    if pathFs.isErr then .ok (.error pathFs.ptrErr, d)
    else do
      let path ← pathFs.deref
      match d.fopen mode path with
      | (.error e, d) => .ok (.error (playlistErrno e), d)
      | (.ok text, d) => .ok (.ok (path, text), d)

def playlistPrintSong (c : Config) (song : ListedSong) : Except StoredFault Text :=
  match c.saveAbsolutePaths, song.parent with
  | true, some parent => do
    let path ← c.mapDirectoryChildFs parent song.uri
    match path with
    | some path => .ok (path ++ ['\n'])
    | none => .ok []
  | _, _ => .ok (c.toFs song.getUri ++ ['\n'])

def playlistPrintUri (c : Config) (uri : Text) : Text :=
  let s :=
    if c.saveAbsolutePaths && !uriHasScheme uri && uri.head? ≠ some '/' then c.mapUriFs uri
    else some (c.toFs uri)
  match s with
  | some s => s ++ ['\n']
  | none => []

/-- `spl_save` -/
def splSave (c : Config) (h : StrList Text) (name : Text) (d : Disk) :
    Except StoredFault (ℤ × Disk) := do
  match ← splOpen c .write name d with
  | (.error ret, d) => .ok (ret, d)
  | (.ok (path, _), d) =>
    let uris ← h.strings.mapError .list
    .ok (0, uris.foldl (fun d uri => d.put path (playlistPrintUri c uri)) d)

/-- The loop of `spl_load`. -/
def loadLoop [EntryAllocator] (c : Config) : StrList Text → List Text →
    Except StrListFault (StrList Text)
  | list, [] => .ok list
  | list, s :: lines =>
    if s.head?.all (· = '#') then loadLoop c list lines
    else
      match if uriHasScheme s then some s else c.mapFsToUtf8 s with
      | none => loadLoop c list lines
      | some s => do
        let list ← list.insertTail s
        if c.maxLength ≤ list.len then .ok list else loadLoop c list lines

theorem succeeds_of_neg {ret : ℤ} (h : ret < 0) :
    (Except.ok (ret, d) : Except StoredFault (ℤ × Disk)).Succeeds
      fun r => r.1 < 0 ∧ r.2.calls = d.calls :=
  .ok ⟨h, rfl⟩

theorem splValidName_eq_false_iff :
    splValidName name = false ↔ '/' ∈ name ∨ '\n' ∈ name ∨ '\r' ∈ name := by
  simp only [splValidName, Bool.and_eq_false_iff, Bool.not_eq_false', contains_iff_mem, or_assoc]

section

variable [StringAllocator] [EntryAllocator]

/-- `spl_load` -/
def splLoad (c : Config) (name : Text) (d : Disk) :
    Except StoredFault (Pointer (StrList Text) × Disk) := do
  match ← splOpen c .read name d with
  | (.error ret, d) => .ok (.number ret, d)
  | (.ok (_, text), d) =>
    let buffer : LineBuffer := ⟨0, StringAllocator.allocate 0 1024⟩
    let list ← (loadLoop c (.init (fun _ => []) fun _ => none)
      (Reader.lines ⟨buffer, text⟩)).mapError .list
    .ok (.object list, d)

/-- `spl_move_index` -/
def splMoveIndex (c : Config) (name : Text) (src dest : ℕ) (d : Disk) :
    Except StoredFault (ℤ × Disk) := do
  let (list, d) ← splLoad c name d
  if list.isErr then .ok (list.ptrErr, d)
  else
    let list ← list.deref
    if src = dest then .ok (0, d)
    else if list.len ≤ src ∨ list.len ≤ dest then .ok (-MpdErr.playlistBadRange.code, d)
    else
      let (list, uri) ← (list.removeIndex src).mapError .list
      let list ← (list.insertAt dest uri).mapError .list
      let (ret, d) ← splSave c list name d
      .ok (ret, d.idleAdd)

def splClear (c : Config) (name : Text) (d : Disk) : Except StoredFault (ℤ × Disk) := do
  match ← splOpen c .write name d with
  | (.error ret, d) => .ok (ret, d)
  | (.ok _, d) => .ok (0, d.idleAdd)

def splDelete (c : Config) (name : Text) (d : Disk) : Except StoredFault (ℤ × Disk) :=
  let pathFs := splMapToFs c name
  if pathFs.isErr then .ok (pathFs.ptrErr, d)
  else do
    let path ← pathFs.deref
    match d.unlink path with
    | (.error e, d) => .ok (playlistErrno e, d)
    | (.ok _, d) => .ok (0, d.idleAdd)

def splRemoveIndex (c : Config) (name : Text) (pos : ℕ) (d : Disk) :
    Except StoredFault (ℤ × Disk) := do
  let (list, d) ← splLoad c name d
  if list.isErr then .ok (list.ptrErr, d)
  else
    let list ← list.deref
    if list.len ≤ pos then .ok (-MpdErr.playlistBadRange.code, d)
    else
      let (list, _) ← (list.removeIndex pos).mapError .list
      let (ret, d) ← splSave c list name d
      .ok (ret, d.idleAdd)

def splAppendSong (c : Config) (name : Text) (song : ListedSong) (d : Disk) :
    Except StoredFault (ℤ × Disk) := do
  match ← splOpen c .append name d with
  | (.error ret, d) => .ok (ret, d)
  | (.ok (path, text), d) =>
    match d.fstatFails d.calls path with
    | some e => .ok (playlistErrno e, d)
    | none =>
      if c.maxLength ≤ text.length / (c.pathMax + 1) then .ok (-MpdErr.playlistTooLarge.code, d)
      else
        let line ← playlistPrintSong c song
        .ok (0, (d.put path line).idleAdd)

def splAppendUri (c : Config) (getSong : Text → Option ListedSong) (url name : Text) (d : Disk) :
    Except StoredFault (ℤ × Disk) :=
  if uriHasScheme url then splAppendSong c name ⟨url, none⟩ d
  else
    match getSong url with
    | none => .ok (-MpdErr.playlistNoSuchSong.code, d)
    | some song => splAppendSong c name song d

def splRenameInternal (source target : Pointer Text) (d : Disk) :
    Except StoredFault (ℤ × Disk) := do
  let source ← source.deref
  if (d.files source).isNone then .ok (-MpdErr.playlistNoSuchList.code, d)
  else
    let target ← target.deref
    if (d.files target).isSome || d.isDirectory target then
      .ok (-MpdErr.playlistListExists.code, d)
    else
      match d.rename source target with
      | (.error e, d) => .ok (playlistErrno e, d)
      | (.ok _, d) => .ok (0, d.idleAdd)

def splRename (c : Config) (source target : Text) (d : Disk) : Except StoredFault (ℤ × Disk) :=
  if c.splMap.isErr then .ok (-MpdErr.playlistDisabled.code, d)
  else
    let sourceFs := splMapToFs c source
    if sourceFs.isErr then .ok (sourceFs.ptrErr, d)
    else
      let targetFs := splMapToFs c target
      if targetFs.isErr then do
        let _ ← sourceFs.deref
        .ok (targetFs.ptrErr, d)
      else do
        let result ← splRenameInternal sourceFs targetFs d
        -- both paths are freed
        let _ ← sourceFs.deref
        let _ ← targetFs.deref
        .ok result

/-! ### Operations -/

inductive Operation
  | load (name : Text)
  | move (name : Text) (src dest : ℕ)
  | clear (name : Text)
  | delete (name : Text)
  | remove (name : Text) (pos : ℕ)
  | appendSong (name : Text) (song : ListedSong)
  | appendUri (url name : Text)
  | rename (source target : Text)

namespace Operation

def names : Operation → List Text
  | load name | move name _ _ | clear name | delete name | remove name _ => [name]
  | appendSong name _ | appendUri _ name => [name]
  | rename source target => [source, target]

def run (c : Config) (getSong : Text → Option ListedSong) (d : Disk) :
    Operation → Except StoredFault (ℤ × Disk)
  | load name => do
    let (list, d) ← splLoad c name d
    .ok (if list.isErr then list.ptrErr else 0, d)
  | move name src dest => splMoveIndex c name src dest d
  | clear name => splClear c name d
  | delete name => splDelete c name d
  | remove name pos => splRemoveIndex c name pos d
  | appendSong name song => splAppendSong c name song d
  | appendUri url name => splAppendUri c getSong url name d
  | rename source target => splRename c source target d

/-- **The operation fails before it calls the system.** -/
def Rejected (c : Config) (getSong : Text → Option ListedSong) (d : Disk) (op : Operation) : Prop :=
  (op.run c getSong d).Succeeds fun r => r.1 < 0 ∧ r.2.calls = d.calls

/-- A local song that is not in the database. -/
def NoSuchSong (getSong : Text → Option ListedSong) : Operation → Prop
  | appendUri url _ => uriHasScheme url = false ∧ getSong url = none
  | _ => False

end Operation

end

/-! ### Playlists that are disabled -/

section Disabled

variable {c : Config} {name : Text} {d : Disk} (h : c.playlistDir = none)
include h

theorem isErr_splMap_of_none : c.splMap.isErr = true := by
  rw [Config.splMap, h]
  rfl

theorem splOpen_of_none (mode : OpenMode) :
    splOpen c mode name d = .ok (.error (-MpdErr.playlistDisabled.code), d) :=
  if_pos (isErr_splMap_of_none h)

theorem splMapToFs_of_none : splMapToFs c name = .number (-MpdErr.playlistBadName.code) := by
  rw [splMapToFs, isErr_splMap_of_none h, Config.mapSplUtf8ToFs, h]
  rfl

theorem splAppendSong_of_none (song : ListedSong) :
    splAppendSong c name song d = .ok (-MpdErr.playlistDisabled.code, d) := by
  rw [splAppendSong, splOpen_of_none h]
  rfl

variable [StringAllocator] [EntryAllocator]

theorem splLoad_of_none : splLoad c name d = .ok (.number (-MpdErr.playlistDisabled.code), d) := by
  rw [splLoad, splOpen_of_none h]
  rfl

theorem Operation.rejected_of_none
    (getSong : Text → Option ListedSong) (op : Operation) : op.Rejected c getSong d := by
  have hdisabled := succeeds_of_neg (d := d) (by decide : -MpdErr.playlistDisabled.code < 0)
  rw [Operation.Rejected]
  cases op with
  | load name =>
    rw [run, splLoad_of_none h]
    exact hdisabled
  | move name src dest =>
    rw [run, splMoveIndex, splLoad_of_none h]
    exact hdisabled
  | clear name =>
    rw [run, splClear, splOpen_of_none h]
    exact hdisabled
  | delete name =>
    rw [run, splDelete, splMapToFs_of_none h]
    exact succeeds_of_neg (by decide : -MpdErr.playlistBadName.code < 0)
  | remove name pos =>
    rw [run, splRemoveIndex, splLoad_of_none h]
    exact hdisabled
  | appendSong name song =>
    rw [run, splAppendSong_of_none h]
    exact hdisabled
  | appendUri url name =>
    rw [run, splAppendUri]
    simp only [splAppendSong_of_none h]
    split
    · exact hdisabled
    · split
      · exact succeeds_of_neg (by decide)
      · exact hdisabled
  | rename source target =>
    rw [run, splRename, if_pos (isErr_splMap_of_none h)]
    exact hdisabled

end Disabled

/-! ### Names that are not allowed -/

section BadName

variable {c : Config} {dir name source target : Text} {d : Disk}

section

variable (h : c.playlistDir = some dir)
include h

theorem isErr_splMap_of_some : c.splMap.isErr = false := by
  rw [Config.splMap, h]
  rfl

theorem splMapToFs_of_valid (hname : splValidName name = true) : splMapToFs c name =
      .object (Directory.buildFilename (some dir) (c.toFs (name ++ ".m3u".toList))) := by
  rw [splMapToFs, isErr_splMap_of_some h, splCheckName, hname, Config.mapSplUtf8ToFs, h]
  rfl

theorem splMapToFs_of_not_valid (hname : splValidName name = false) :
    splMapToFs c name = .number MpdErr.playlistBadName.code := by
  rw [splMapToFs, isErr_splMap_of_some h, splCheckName, hname]
  rfl

theorem isErr_splMapToFs_of_some (name : Text) : (splMapToFs c name).isErr = false := by
  cases hname : splValidName name with
  | true =>
    rw [splMapToFs_of_valid h hname]
    rfl
  | false =>
    rw [splMapToFs_of_not_valid h hname]
    decide

theorem splOpen_of_not_valid (hname : splValidName name = false)
    (mode : OpenMode) : splOpen c mode name d = .error .badPointer := by
  rw [splOpen, isErr_splMap_of_some h]
  dsimp only
  rw [isErr_splMapToFs_of_some h, splMapToFs_of_not_valid h hname]
  rfl

theorem splAppendSong_of_not_valid (hname : splValidName name = false) (song : ListedSong) :
    splAppendSong c name song d = .error .badPointer := by
  rw [splAppendSong, splOpen_of_not_valid h hname]
  rfl

theorem splRename_of_not_valid (hname : splValidName source = false ∨ splValidName target = false) :
    splRename c source target d = .error .badPointer := by
  rw [splRename, isErr_splMap_of_some h]
  dsimp only
  rw [isErr_splMapToFs_of_some h, isErr_splMapToFs_of_some h]
  cases hsource : splValidName source with
  | false =>
    rw [splMapToFs_of_not_valid h hsource]
    rfl
  | true =>
    have htarget : splValidName target = false := by
      obtain hname | hname := hname
      · rw [hname] at hsource
        cases hsource
      · exact hname
    -- if the test of the source does not stop it, the target is tested, and freed in any case
    rw [splMapToFs_of_valid h hsource, splMapToFs_of_not_valid h htarget]
    simp only [if_neg Bool.false_ne_true, splRenameInternal, Pointer.deref, Except.ok_bind]
    split <;> rfl

variable [StringAllocator] [EntryAllocator]

theorem splLoad_of_not_valid (hname : splValidName name = false) :
    splLoad c name d = .error .badPointer := by
  rw [splLoad, splOpen_of_not_valid h hname]
  rfl

theorem Operation.run_of_not_valid {op : Operation}
    (hname : name ∈ op.names) (hvalid : splValidName name = false)
    {getSong : Text → Option ListedSong} (hsong : ¬ op.NoSuchSong getSong) :
    op.run c getSong d = .error .badPointer := by
  cases op with
  | load _ =>
    obtain rfl := mem_singleton.mp hname
    rw [run, splLoad_of_not_valid h hvalid]
    rfl
  | move _ src dest =>
    obtain rfl := mem_singleton.mp hname
    rw [run, splMoveIndex, splLoad_of_not_valid h hvalid]
    rfl
  | clear _ =>
    obtain rfl := mem_singleton.mp hname
    rw [run, splClear, splOpen_of_not_valid h hvalid]
    rfl
  | delete _ =>
    obtain rfl := mem_singleton.mp hname
    rw [run, splDelete, isErr_splMapToFs_of_some h, splMapToFs_of_not_valid h hvalid]
    rfl
  | remove _ pos =>
    obtain rfl := mem_singleton.mp hname
    rw [run, splRemoveIndex, splLoad_of_not_valid h hvalid]
    rfl
  | appendSong _ song =>
    obtain rfl := mem_singleton.mp hname
    exact splAppendSong_of_not_valid h hvalid song
  | appendUri url _ =>
    obtain rfl := mem_singleton.mp hname
    rw [run, splAppendUri]
    simp only [splAppendSong_of_not_valid h hvalid]
    rw [NoSuchSong, not_and] at hsong
    split
    · rfl
    · next hscheme =>
      split
      · next hnone => exact absurd hnone (hsong (Bool.not_eq_true _ ▸ hscheme))
      · rfl
  | rename source target =>
    refine splRename_of_not_valid h ?_
    obtain rfl | hname := mem_cons.mp hname
    · exact .inl hvalid
    · obtain rfl := mem_singleton.mp hname
      exact .inr hvalid

end

/-- **A name with a slash, a newline or a carriage return is rejected** if and only if playlists are
disabled, or a song is to be appended that is not found in the database. -/
theorem Operation.rejected_iff [StringAllocator] [EntryAllocator] {op : Operation}
    {getSong : Text → Option ListedSong} (hname : name ∈ op.names)
    (hbad : '/' ∈ name ∨ '\n' ∈ name ∨ '\r' ∈ name) :
    op.Rejected c getSong d ↔ c.playlistDir = none ∨ op.NoSuchSong getSong := by
  constructor
  · intro hrejected
    by_contra hnot
    rw [not_or] at hnot
    obtain ⟨dir, hdir⟩ := Option.ne_none_iff_exists'.mp hnot.1
    have hrun := Operation.run_of_not_valid (d := d) hdir hname
      (splValidName_eq_false_iff.mpr hbad) hnot.2
    rw [Operation.Rejected, hrun] at hrejected
    exact Except.not_succeeds_error hrejected
  · rintro (hnone | hsong)
    · exact Operation.rejected_of_none hnone getSong op
    · cases op with
      | appendUri url _ =>
        rw [Operation.Rejected, Operation.run, splAppendUri, hsong.1, hsong.2]
        exact succeeds_of_neg (by decide)
      | _ => exact hsong.elim

end BadName

def plainConfig (playlistDir : Option Text) : Config where
  playlistDir := playlistDir
  musicDir := none
  maxLength := 16384
  saveAbsolutePaths := false
  pathMax := 4096
  toFs := id
  toUtf8 := id

def emptyDisk : Disk where
  files _ := none
  isDirectory _ := false
  refuses _ _ := none
  fstatFails _ _ := none
  calls := []
  idle := false

theorem rejected_iff_noSuchSong :
    (Operation.appendUri "a".toList "../b".toList).Rejected (plainConfig (some "/p".toList))
      (fun _ => none) emptyDisk :=
  have hname : "../b".toList ∈ (Operation.appendUri "a".toList "../b".toList).names :=
    mem_cons_self
  (Operation.rejected_iff hname (by decide)).mpr (.inr ⟨by decide, rfl⟩)

def slashOperations : List Operation :=
  let name := "a/b".toList
  [.load name, .move name 0 1, .clear name, .delete name, .remove name 0,
    .appendSong name ⟨"s".toList, none⟩, .appendUri "http://s".toList name,
    .rename name "c".toList, .rename "c".toList name]

theorem not_rejected_slash : slashOperations.Forall fun op =>
      op.run (plainConfig (some "/p".toList)) (fun _ => none) emptyDisk = .error .badPointer ∧
        ¬ op.Rejected (plainConfig (some "/p".toList)) (fun _ => none) emptyDisk := by
  have hfault : slashOperations.Forall fun op =>
      op.run (plainConfig (some "/p".toList)) (fun _ => none) emptyDisk = .error .badPointer := by
    decide
  rw [forall_iff_forall_mem] at hfault ⊢
  intro op hop
  refine ⟨hfault op hop, fun hrejected => ?_⟩
  rw [Operation.Rejected, hfault op hop] at hrejected
  exact Except.not_succeeds_error hrejected

end Stored

end Mpd
