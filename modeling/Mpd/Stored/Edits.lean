import Mpd.Stored.Playlist

/-!
# Editing stored playlists

A stored playlist is a file with one URI in each line, in the character set of the file system.
`spl_append_song` writes a line at its end. `spl_move_index` and `spl_remove_index` read the whole
file, change the list and write it again, so that what does not survive reading and writing is lost:

* a line that begins with `#` is a comment for `spl_load`, and `spl_append_song` does not mind;
* `spl_load` stops at `playlist_max_length` entries, and the test in `spl_append_song`, which
  divides the size of the file by that of the longest path, lets many more of them through;
* a URI with a scheme is converted from UTF-8 when it is written, but not back when it is read;
* a carriage return at the end of a line is removed, and lines of half a megabyte are divided.

If none of this comes up, the file lists the right URIs after every edit (`edits_listed`).
-/

namespace Mpd

open List Except

namespace Stored

variable {c : Config} {uri name dir path : Text} {uris : List Text} {d d' : Disk}

/-! ### What a file lists -/

def fileText (c : Config) (uris : List Text) : Text :=
  uris.flatMap fun uri => c.toFs uri ++ ['\n']

/-- The file has these URIs. -/
def Lists (c : Config) (path : Text) (d : Disk) (uris : List Text) : Prop :=
  d.files path = some (fileText c uris) ∨ uris = [] ∧ d.files path = none

def playlistPath (c : Config) (dir name : Text) : Text :=
  Directory.buildFilename (some dir) (c.toFs (name ++ ".m3u".toList))

def InMusicDir (c : Config) (pathFs : Text) : Prop :=
  ∃ dir ∈ c.musicDir, (dir ++ ['/']).isPrefixOf pathFs = true

/-- The line of a URI is read as it was written, is taken for a URI, and is written as it was
read. -/
structure Kept (c : Config) (uri : Text) : Prop where
  readable : Reader.Readable (c.toFs uri)
  nonempty : c.toFs uri ≠ []
  noComment : (c.toFs uri).head? ≠ some '#'
  remote : uriHasScheme (c.toFs uri) = true → c.toFs (c.toFs uri) = c.toFs uri
  relative : uriHasScheme (c.toFs uri) = false →
    (c.toFs uri).head? ≠ some '/' ∧ ¬ InMusicDir c (c.toFs uri)

def entry (c : Config) (uri : Text) : Text :=
  if uriHasScheme (c.toFs uri) then c.toFs uri else c.toUtf8 (c.toFs uri)

theorem Kept.print_entry (h : Kept c uri) (hinv : ∀ u, c.toUtf8 (c.toFs u) = u)
    (hrelative : c.saveAbsolutePaths = false) :
    playlistPrintUri c (entry c uri) = c.toFs uri ++ ['\n'] := by
  have hprint : ∀ u, playlistPrintUri c u = c.toFs u ++ ['\n'] := by
    intro u
    rw [playlistPrintUri, hrelative]
    rfl
  rw [hprint, entry]
  split
  · next hscheme => rw [h.remote hscheme]
  · rw [hinv]

theorem mapFsToUtf8_of_relative {s : Text} (hhead : s.head? ≠ some '/') (hdir : ¬ InMusicDir c s) :
    c.mapFsToUtf8 s = some (c.toUtf8 s) := by
  have hnone : (c.musicDir.filter fun dir => (dir ++ ['/']).isPrefixOf s) = none := by
    rw [Option.filter_eq_none_iff]
    exact fun dir hmem hprefix => hdir ⟨dir, hmem, hprefix⟩
  rw [Config.mapFsToUtf8]
  simp only [hnone, if_neg hhead]

theorem Kept.loadLoop_cons [EntryAllocator] (h : Kept c uri) (list : StrList Text)
    (lines : List Text) : loadLoop c list (c.toFs uri :: lines) =
      list.insertTail (entry c uri) >>= fun list =>
        if c.maxLength ≤ list.len then .ok list else loadLoop c list lines := by
  have hcomment : ¬ ((c.toFs uri).head?.all (· = '#')) = true := by
    obtain ⟨ch, s, hs⟩ := exists_cons_of_ne_nil h.nonempty
    have hne := h.noComment
    rw [hs, head?_cons] at hne ⊢
    simpa using hne
  have hentry : (if uriHasScheme (c.toFs uri) then some (c.toFs uri)
      else c.mapFsToUtf8 (c.toFs uri)) = some (entry c uri) := by
    rw [entry]
    split
    · rfl
    · next hscheme =>
      obtain ⟨hhead, hdir⟩ := h.relative (Bool.not_eq_true _ ▸ hscheme)
      exact mapFsToUtf8_of_relative hhead hdir
  rw [loadLoop, if_neg hcomment, hentry]

/-- The list has the entries of the given URIs. -/
def Holds (c : Config) (list : StrList Text) (uris : List Text) : Prop :=
  ∃ es, list.Represents es (uris.map (entry c))

theorem Holds.len_eq {list : StrList Text} (h : Holds c list uris) : list.len = uris.length := by
  obtain ⟨es, hrep⟩ := h
  rw [hrep.len, length_map]

/-- **All entries are loaded**, if there are not too many of them. -/
theorem loadLoop_succeeds [EntryAllocator] {uris' : List Text} (hkept : ∀ uri ∈ uris, Kept c uri)
    {list : StrList Text} (h : Holds c list uris')
    (hlength : uris'.length + uris.length ≤ c.maxLength) :
    (loadLoop c list (uris.map c.toFs)).Succeeds fun list => Holds c list (uris' ++ uris) := by
  induction uris generalizing list uris' with
  | nil => exact .ok ((append_nil uris').symm ▸ h)
  | cons uri uris ih =>
    rw [forall_mem_cons] at hkept
    rw [length_cons] at hlength
    obtain ⟨es, hrep⟩ := h
    rw [map_cons, hkept.1.loadLoop_cons]
    refine (hrep.insertTail_succeeds (entry c uri)).bind fun list' hrep' => ?_
    have hlist : Holds c list' (uris' ++ [uri]) := by
      rw [Holds, map_append]
      exact hrep'
    have hlen : list'.len = uris'.length + 1 := by
      rw [hlist.len_eq, length_append, length_singleton]
    rw [append_cons]
    split
    · -- the limit is reached with the last entry
      have hnil : uris = [] := eq_nil_of_length_eq_zero (by omega)
      rw [hnil, append_nil]
      exact .ok hlist
    · exact ih hkept.2 hlist (by rw [length_append, length_singleton]; omega)

/-! ### Files -/

/-- The file of a playlist lists the given URIs. Where a directory stands in its place, nothing has
been appended. -/
structure Listed (c : Config) (path : Text) (d : Disk) (uris : List Text) : Prop where
  lists : Lists c path d uris
  directory : d.isDirectory path = true → uris = []

/-- No call of the system fails. -/
def Willing (d : Disk) : Prop :=
  ∀ calls call, d.refuses calls call = none

theorem Listed.congr (h : Listed c path d uris) (hfiles : d'.files path = d.files path)
    (hdirectory : d'.isDirectory = d.isDirectory) : Listed c path d' uris where
  lists := by
    rw [Lists, hfiles]
    exact h.lists
  directory := hdirectory ▸ h.directory

theorem Listed.fopen_read (h : Listed c path d uris) : Listed c path (d.fopen .read path).2 uris ∧
      (∀ e, (d.fopen .read path).1 = .error e → Willing d → uris = []) ∧
      ∀ text, (d.fopen .read path).1 = .ok text → text = fileText c uris := by
  rw [Disk.fopen, Disk.call]
  split
  · next e' hrefuses =>
    refine ⟨h.congr rfl rfl, fun e _ hwilling => ?_, fun text htext => by cases htext⟩
    rw [hwilling] at hrefuses
    cases hrefuses
  · dsimp only
    split
    · next hdirectory =>
      refine ⟨h.congr rfl rfl, fun e he => (by cases he), fun text htext => ?_⟩
      rw [h.directory hdirectory]
      exact (ok.inj htext).symm
    · obtain hlists | ⟨hnil, hnone⟩ := h.lists
      · rw [hlists]
        exact ⟨h.congr rfl rfl, fun e he => (by cases he), fun text htext => (ok.inj htext).symm⟩
      · rw [hnone]
        exact ⟨h.congr rfl rfl, fun _ _ _ => hnil, fun text htext => by cases htext⟩

theorem Listed.fopen_append (h : Listed c path d uris) :
    Listed c path (d.fopen .append path).2 uris ∧
      ∀ text, (d.fopen .append path).1 = .ok text →
        (d.fopen .append path).2.files path = some (fileText c uris) ∧
        (d.fopen .append path).2.isDirectory path = false := by
  rw [Disk.fopen, Disk.call]
  split
  · exact ⟨h.congr rfl rfl, fun text htext => by cases htext⟩
  · dsimp only
    split
    · exact ⟨h.congr rfl rfl, fun text htext => by cases htext⟩
    · next hdirectory =>
      rw [Bool.not_eq_true] at hdirectory
      obtain hlists | ⟨rfl, hnone⟩ := h.lists
      · rw [hlists]
        exact ⟨h.congr rfl rfl, fun text _ => ⟨hlists, hdirectory⟩⟩
      · rw [hnone]
        have hfile : Function.update d.files path (some []) path = some (fileText c []) :=
          Function.update_self ..
        exact ⟨⟨.inl hfile, fun _ => rfl⟩, fun text _ => ⟨hfile, hdirectory⟩⟩

theorem Listed.fopen_write (h : Listed c path d uris) : (∀ e, (d.fopen .write path).1 = .error e →
      Listed c path (d.fopen .write path).2 uris ∧ (Willing d → uris = [])) ∧
    ∀ text, (d.fopen .write path).1 = .ok text →
      (d.fopen .write path).2.files path = some [] ∧
      (d.fopen .write path).2.isDirectory path = false := by
  rw [Disk.fopen, Disk.call]
  split
  · next e' hrefuses =>
    refine ⟨fun e _ => ⟨h.congr rfl rfl, fun hwilling => ?_⟩, fun text htext => by cases htext⟩
    rw [hwilling] at hrefuses
    cases hrefuses
  · dsimp only
    split
    · next hdirectory =>
      exact ⟨fun e _ => ⟨h.congr rfl rfl, fun _ => h.directory hdirectory⟩,
        fun text htext => by cases htext⟩
    · next hdirectory =>
      refine ⟨fun e he => ?_, fun text _ => ⟨Function.update_self .., ?_⟩⟩
      · cases he
      · exact Bool.not_eq_true _ ▸ hdirectory

theorem Willing.fopen (h : Willing d) (mode : OpenMode) (path : Text) :
    Willing (d.fopen mode path).2 := by
  rw [Disk.fopen, Disk.call, h]
  dsimp only
  split
  · exact h
  · cases mode <;> cases d.files path <;> exact h

/-! ### Reading and writing the list -/

section Open

variable (hdir : c.playlistDir = some dir) (hname : splValidName name = true)

include hdir hname

theorem splOpen_eq (mode : OpenMode) : splOpen c mode name d =
    .ok (match d.fopen mode (playlistPath c dir name) with
      | (.error e, d) => (.error (playlistErrno e), d)
      | (.ok text, d) => (.ok (playlistPath c dir name, text), d)) := by
  rw [splOpen, isErr_splMap_of_some hdir]
  dsimp only
  rw [isErr_splMapToFs_of_some hdir, splMapToFs_of_valid hdir hname, if_neg Bool.false_ne_true,
    if_neg Bool.false_ne_true, Pointer.deref, ok_bind, ← playlistPath]
  rcases d.fopen mode (playlistPath c dir name) with ⟨_ | _, _⟩ <;> rfl

end Open

theorem playlistErrno_neg (e : Errno) : playlistErrno e < 0 := by
  cases e <;> decide

theorem isErr_playlistErrno {α : Type} (e : Errno) :
    (Pointer.number (playlistErrno e) : Pointer α).isErr = true := by
  cases e <;> rfl

theorem not_isErr_object {α : Type} {a : α} : ¬ (Pointer.object a).isErr = true :=
  Bool.false_ne_true

theorem files_foldl_put {text : Text} (lines : List Text) (print : Text → Text)
    (h : d.files path = some text) :
    (lines.foldl (fun d line => d.put path (print line)) d).files path =
      some (text ++ lines.flatMap print) ∧
    (lines.foldl (fun d line => d.put path (print line)) d).isDirectory = d.isDirectory := by
  induction lines generalizing d text with
  | nil => exact ⟨h.trans (congrArg some (append_nil text).symm), rfl⟩
  | cons line lines ih =>
    have hput : (d.put path (print line)).files path = some (text ++ print line) := by
      rw [Disk.put, h]
      exact Function.update_self ..
    rw [foldl_cons, flatMap_cons, ← append_assoc]
    exact ih hput

/-- An edit is made: it leaves the file that lists `uris'`, or it fails and leaves the list as it
was. -/
structure Edited (c : Config) (path : Text) (uris uris' : List Text) (r : ℤ × Disk) : Prop where
  listed : Listed c path r.2 (if r.1 = 0 then uris' else uris)
  failed : r.1 ≠ 0 → r.1 < 0

theorem Edited.of_neg {uris' : List Text} {ret : ℤ} (h : Listed c path d uris) (hneg : ret < 0) :
    Edited c path uris uris' (ret, d) :=
  ⟨(if_neg hneg.ne).symm ▸ h, fun _ => hneg⟩

theorem Edited.lists_or {uris' : List Text} {r : ℤ × Disk} (h : Edited c path uris uris' r)
    (hwilling : Willing d → r.1 = 0) :
    r.1 = 0 ∧ Lists c path r.2 uris' ∨ r.1 < 0 ∧ Lists c path r.2 uris ∧ ¬ Willing d := by
  have hlists := h.listed.lists
  split at hlists
  · next hzero => exact .inl ⟨hzero, hlists⟩
  · next hne => exact .inr ⟨h.failed hne, hlists, fun hw => hne (hwilling hw)⟩

theorem lines_fileText [StringAllocator] (hkept : ∀ uri ∈ uris, Kept c uri) :
    Reader.lines ⟨⟨0, StringAllocator.allocate 0 1024⟩, fileText c uris⟩ = uris.map c.toFs := by
  refine Reader.lines_eq (by decide : 0 < LineBuffer.maxLength) ?_ ?_
  · intro line hline
    obtain ⟨uri, huri, rfl⟩ := mem_map.mp hline
    exact (hkept uri huri).readable
  · rw [flatMap_map]
    rfl

section Operations

variable (hdir : c.playlistDir = some dir) (hname : splValidName name = true)
include hdir hname

section Save

variable (hinv : ∀ u, c.toUtf8 (c.toFs u) = u) (hrelative : c.saveAbsolutePaths = false)
include hinv hrelative

theorem splSave_succeeds {uris' : List Text} {list : StrList Text} (hlist : Holds c list uris')
    (hkept : ∀ uri ∈ uris', Kept c uri) (h : Listed c (playlistPath c dir name) d uris) :
    (splSave c list name d).Succeeds fun r =>
      r.1 < 0 ∧ Listed c (playlistPath c dir name) r.2 uris ∧ (Willing d → uris = []) ∨
      r.1 = 0 ∧ Listed c (playlistPath c dir name) r.2 uris' := by
  obtain ⟨herror, hok⟩ := h.fopen_write
  rw [splSave]
  cases hopen : d.fopen .write (playlistPath c dir name) with
  | mk r d' =>
    rw [hopen] at herror hok
    cases r with
    | error e =>
      rw [splOpen_eq hdir hname, hopen, ok_bind]
      exact .ok (.inl ⟨playlistErrno_neg e, herror e rfl⟩)
    | ok text =>
      obtain ⟨hfile, hdirectory⟩ := hok text rfl
      obtain ⟨hfiles, hdirectories⟩ :=
        files_foldl_put (uris'.map (entry c)) (playlistPrintUri c) hfile
      have htext : (uris'.map (entry c)).flatMap (playlistPrintUri c) = fileText c uris' := by
        rw [flatMap_map]
        exact flatMap_congr fun uri huri => (hkept uri huri).print_entry hinv hrelative
      obtain ⟨es, hrep⟩ := hlist
      rw [splOpen_eq hdir hname, hopen, ok_bind]
      dsimp only
      rw [hrep.strings_eq, Except.mapError, ok_bind, succeeds_ok]
      rw [htext, nil_append] at hfiles
      refine .inr ⟨rfl, .inl hfiles, fun hdir' => ?_⟩
      rw [hdirectories, hdirectory] at hdir'
      cases hdir'

theorem saved_edited {uris' : List Text} {list : StrList Text} (hlist : Holds c list uris')
    (hkept : ∀ uri ∈ uris', Kept c uri) (h : Listed c (playlistPath c dir name) d uris)
    (hne : uris ≠ []) :
    (splSave c list name d >>= fun r => .ok (r.1, r.2.idleAdd)).Succeeds fun r =>
      Edited c (playlistPath c dir name) uris uris' r ∧ (Willing d → r.1 = 0) := by
  refine (splSave_succeeds hdir hname hinv hrelative hlist hkept h).bind ?_
  rintro ⟨ret, d'⟩ (⟨hneg, hlisted, hnil⟩ | ⟨hzero, hlisted⟩)
  · exact .ok ⟨.of_neg (hlisted.congr rfl rfl) hneg, fun hw => absurd (hnil hw) hne⟩
  · obtain rfl : ret = 0 := hzero
    exact .ok ⟨⟨hlisted.congr rfl rfl, fun hne => absurd rfl hne⟩, fun _ => rfl⟩

end Save

variable [StringAllocator] [EntryAllocator]

theorem splLoad_succeeds (hkept : ∀ uri ∈ uris, Kept c uri) (hlength : uris.length ≤ c.maxLength)
    (h : Listed c (playlistPath c dir name) d uris) :
    (splLoad c name d).Succeeds fun r => Listed c (playlistPath c dir name) r.2 uris ∧
      (Willing d → Willing r.2) ∧
      ((∃ e, r.1 = .number (playlistErrno e)) ∧ (Willing d → uris = []) ∨
        ∃ list, r.1 = .object list ∧ Holds c list uris) := by
  obtain ⟨hlisted, herror, hok⟩ := h.fopen_read
  have hwilling := fun h : Willing d => h.fopen .read (playlistPath c dir name)
  rw [splLoad]
  cases hopen : d.fopen .read (playlistPath c dir name) with
  | mk r d' =>
    rw [hopen] at hlisted herror hok hwilling
    cases r with
    | error e =>
      rw [splOpen_eq hdir hname, hopen, ok_bind]
      exact .ok ⟨hlisted, hwilling, .inl ⟨⟨e, rfl⟩, herror e rfl⟩⟩
    | ok text =>
      obtain rfl := hok text rfl
      rw [splOpen_eq hdir hname, hopen, ok_bind]
      dsimp only
      rw [lines_fileText hkept]
      have hinit : Holds c (.init (fun _ => []) fun _ => none) [] :=
        ⟨[], StrList.represents_init _ _⟩
      have hload := loadLoop_succeeds hkept hinit ((Nat.zero_add _).trans_le hlength)
      exact hload.mapError.bind fun list hlist => .ok ⟨hlisted, hwilling, .inr ⟨list, rfl, hlist⟩⟩

theorem loaded_edited (hkept : ∀ uri ∈ uris, Kept c uri) (hlength : uris.length ≤ c.maxLength)
    (h : Listed c (playlistPath c dir name) d uris) {uris' : List Text} {inRange : Prop}
    {edit : Pointer (StrList Text) × Disk → Except StoredFault (ℤ × Disk)}
    (hrange : inRange → uris ≠ [])
    (herror : ∀ e d, edit (.number (playlistErrno e), d) = .ok (playlistErrno e, d))
    (hedit : ∀ list d, Holds c list uris → Listed c (playlistPath c dir name) d uris →
      (edit (.object list, d)).Succeeds fun r =>
        Edited c (playlistPath c dir name) uris uris' r ∧ (Willing d → inRange → r.1 = 0)) :
    (splLoad c name d >>= edit).Succeeds fun r =>
      Edited c (playlistPath c dir name) uris uris' r ∧ (Willing d → inRange → r.1 = 0) := by
  refine (splLoad_succeeds hdir hname hkept hlength h).bind ?_
  rintro ⟨_, d'⟩ ⟨hlisted, hwilling, ⟨⟨e, rfl⟩, hnil⟩ | ⟨list, rfl, hlist⟩⟩
  · rw [herror]
    exact .ok ⟨.of_neg hlisted (playlistErrno_neg e), fun hw hr => absurd (hnil hw) (hrange hr)⟩
  · exact (hedit list d' hlist hlisted).mono fun r hr => ⟨hr.1, fun hw => hr.2 (hwilling hw)⟩

end Operations

/-! ### Moving and removing -/

def moved (uris : List Text) (src dest : ℕ) : List Text :=
  match uris[src]? with
  | some uri => (uris.eraseIdx src).insertIdx dest uri
  | none => uris

section Moving

variable {src dest pos : ℕ}

theorem moved_self : moved uris src src = uris := by
  rw [moved]
  split
  · next uri huri =>
    obtain ⟨hlt, rfl⟩ := List.getElem?_eq_some_iff.mp huri
    exact insertIdx_eraseIdx_getElem hlt
  · rfl

theorem Holds.removeIndex_succeeds {list : StrList Text} (h : Holds c list uris)
    (hsrc : src < uris.length) : (list.removeIndex src).Succeeds fun r =>
      Holds c r.1 (uris.eraseIdx src) ∧ (uris[src]?).map (entry c) = some r.2 := by
  obtain ⟨es, hrep⟩ := h
  unfold Holds
  rw [← eraseIdx_map, ← getElem?_map]
  exact hrep.removeIndex_succeeds ((length_map _).symm ▸ hsrc)

theorem Holds.insertAt_succeeds [EntryAllocator] {list : StrList Text}
    (h : Holds c list (uris.eraseIdx src)) (hs : (uris[src]?).map (entry c) = some uri)
    (hdest : dest < uris.length) :
    (list.insertAt dest uri).Succeeds fun list => Holds c list (moved uris src dest) := by
  obtain ⟨uri', huri', rfl⟩ := Option.map_eq_some_iff.mp hs
  obtain ⟨es, hrep⟩ := h
  have hsrc := (List.getElem?_eq_some_iff.mp huri').1
  rw [moved, huri']
  dsimp only [Holds]
  rw [map_insertIdx]
  exact hrep.insertAt_succeeds (by rw [length_map, length_eraseIdx_of_lt hsrc]; omega) _

theorem mem_of_mem_moved (h : uri ∈ moved uris src dest) : uri ∈ uris := by
  rw [moved] at h
  split at h
  · next uri' huri =>
    obtain rfl | h := eq_or_mem_of_mem_insertIdx h
    · exact mem_of_getElem? huri
    · exact mem_of_mem_eraseIdx h
  · exact h

theorem length_moved_le : (moved uris src dest).length ≤ uris.length := by
  rw [moved]
  split
  · next uri' huri =>
    have hlt := (List.getElem?_eq_some_iff.mp huri).1
    have hinsert : ((uris.eraseIdx src).insertIdx dest uri').length ≤
        (uris.eraseIdx src).length + 1 := length_insertIdx_le_succ
    have herase := length_eraseIdx_of_lt hlt
    omega
  · exact le_rfl

variable [StringAllocator] [EntryAllocator] (hdir : c.playlistDir = some dir)
  (hname : splValidName name = true)
  (hinv : ∀ u, c.toUtf8 (c.toFs u) = u) (hrelative : c.saveAbsolutePaths = false)
  (hkept : ∀ uri ∈ uris, Kept c uri) (hlength : uris.length ≤ c.maxLength)
  (h : Listed c (playlistPath c dir name) d uris)

include hdir hname hinv hrelative hkept hlength h

/-- **`spl_move_index` moves the entry.** -/
theorem splMoveIndex_succeeds (src dest : ℕ) : (splMoveIndex c name src dest d).Succeeds fun r =>
      Edited c (playlistPath c dir name) uris (moved uris src dest) r ∧
        (Willing d → src < uris.length ∧ dest < uris.length → r.1 = 0) := by
  refine loaded_edited hdir hname hkept hlength h ?_ (fun e d => if_pos (isErr_playlistErrno e)) ?_
  · rintro ⟨hsrc, -⟩ rfl
    exact Nat.not_lt_zero _ hsrc
  · intro list d hlist hlisted
    dsimp only
    rw [if_neg not_isErr_object, Pointer.deref, ok_bind, hlist.len_eq]
    split
    · next heq =>
      obtain rfl := heq
      rw [moved_self]
      exact .ok ⟨⟨hlisted, fun hne => absurd rfl hne⟩, fun _ _ => rfl⟩
    · split
      · exact .ok ⟨.of_neg hlisted (by decide), by omega⟩
      · next hrange =>
        refine (hlist.removeIndex_succeeds (by omega)).mapError.bind ?_
        rintro ⟨list', uri⟩ ⟨hlist', huri⟩
        refine (hlist'.insertAt_succeeds huri (by omega)).mapError.bind fun list'' hlist'' => ?_
        refine (saved_edited hdir hname hinv hrelative hlist''
          (fun uri huri => hkept uri (mem_of_mem_moved huri)) hlisted
          (ne_nil_of_length_pos (by omega))).mono fun r hr => ⟨hr.1, fun hw _ => hr.2 hw⟩

/-- **`spl_remove_index` removes the entry.** -/
theorem splRemoveIndex_succeeds (pos : ℕ) : (splRemoveIndex c name pos d).Succeeds fun r =>
      Edited c (playlistPath c dir name) uris (uris.eraseIdx pos) r ∧
        (Willing d → pos < uris.length → r.1 = 0) := by
  refine loaded_edited hdir hname hkept hlength h ?_ (fun e d => if_pos (isErr_playlistErrno e)) ?_
  · rintro hpos rfl
    exact Nat.not_lt_zero _ hpos
  · intro list d hlist hlisted
    dsimp only
    rw [if_neg not_isErr_object, Pointer.deref, ok_bind, hlist.len_eq]
    split
    · exact .ok ⟨.of_neg hlisted (by decide), by omega⟩
    · next hrange =>
      refine (hlist.removeIndex_succeeds (by omega)).mapError.bind ?_
      rintro ⟨list', uri⟩ ⟨hlist', -⟩
      refine (saved_edited hdir hname hinv hrelative hlist'
        (fun uri huri => hkept uri (mem_of_mem_eraseIdx huri)) hlisted
        (ne_nil_of_length_pos (by omega))).mono fun r hr => ⟨hr.1, fun hw _ => hr.2 hw⟩

end Moving

/-! ### Runs of edits -/

/-- The edits of a stored playlist. -/
inductive Edit
  | appendSong (song : ListedSong)
  | appendUri (url : Text)
  | move (src dest : ℕ)
  | remove (pos : ℕ)

/-- The file system, and what a playlist should list. -/
structure Editing where
  disk : Disk
  listed : List Text

namespace Edit

section

variable [StringAllocator] [EntryAllocator]

def perform (c : Config) (getSong : Text → Option ListedSong) (name : Text) (d : Disk) :
    Edit → Except StoredFault (ℤ × Disk)
  | appendSong song => splAppendSong c name song d
  | appendUri url => splAppendUri c getSong url name d
  | move src dest => splMoveIndex c name src dest d
  | remove pos => splRemoveIndex c name pos d

end

def appended (getSong : Text → Option ListedSong) : Edit → Option Text
  | appendSong song => some song.getUri
  | appendUri url => if uriHasScheme url then some url else (getSong url).map ListedSong.getUri
  | move _ _ => none
  | remove _ => none

def expected (getSong : Text → Option ListedSong) (uris : List Text) : Edit → List Text
  | appendSong song => uris ++ [song.getUri]
  | appendUri url => uris ++ ((appendUri url).appended getSong).toList
  | move src dest => moved uris src dest
  | remove pos => uris.eraseIdx pos

def run [StringAllocator] [EntryAllocator] (c : Config) (getSong : Text → Option ListedSong)
    (name : Text) (edit : Edit) (s : Editing) : Except StoredFault Editing := do
  let (ret, d) ← edit.perform c getSong name s.disk
  .ok ⟨d, if ret = 0 then edit.expected getSong s.listed else s.listed⟩

/-- What is appended is kept, and there is room for it. -/
def Safe (c : Config) (getSong : Text → Option ListedSong) (edit : Edit) (s : Editing) : Prop :=
  ∀ uri ∈ edit.appended getSong, Kept c uri ∧ s.listed.length < c.maxLength

variable {getSong : Text → Option ListedSong} {edit : Edit}

theorem mem_expected (h : uri ∈ edit.expected getSong uris) :
    uri ∈ uris ∨ uri ∈ edit.appended getSong := by
  cases edit with
  | appendSong song =>
    refine (mem_append.mp h).imp_right fun hmem => ?_
    exact congrArg some (mem_singleton.mp hmem).symm
  | appendUri url => exact (mem_append.mp h).imp_right Option.mem_toList.mp
  | move src dest => exact .inl (mem_of_mem_moved h)
  | remove pos => exact .inl (mem_of_mem_eraseIdx h)

theorem length_expected_le : (edit.expected getSong uris).length ≤
      uris.length + if (edit.appended getSong).isSome then 1 else 0 := by
  cases edit with
  | appendSong song => exact length_append.le
  | appendUri url =>
    rw [expected, length_append]
    cases (appendUri url).appended getSong <;> exact le_rfl
  | move src dest => exact length_moved_le
  | remove pos => exact length_eraseIdx_le ..

end Edit

/-- What holds between edits. -/
structure Editing.Inv (c : Config) (path : Text) (s : Editing) : Prop where
  listed : Listed c path s.disk s.listed
  kept : ∀ uri ∈ s.listed, Kept c uri
  length : s.listed.length ≤ c.maxLength

section Runs

variable {getSong : Text → Option ListedSong} {s : Editing} (hdir : c.playlistDir = some dir)
  (hname : splValidName name = true) (hrelative : c.saveAbsolutePaths = false)
include hdir hname hrelative

/-- **`spl_append_song` appends the URI of the song.** -/
theorem splAppendSong_succeeds (song : ListedSong) (h : Listed c (playlistPath c dir name) d uris) :
    (splAppendSong c name song d).Succeeds
      (Edited c (playlistPath c dir name) uris (uris ++ [song.getUri])) := by
  obtain ⟨hlisted, hok⟩ := h.fopen_append
  have hprint : playlistPrintSong c song = .ok (c.toFs song.getUri ++ ['\n']) := by
    rw [playlistPrintSong, hrelative]
  rw [splAppendSong]
  cases hopen : d.fopen .append (playlistPath c dir name) with
  | mk r d' =>
    rw [hopen] at hlisted hok
    cases r with
    | error e =>
      rw [splOpen_eq hdir hname, hopen, ok_bind]
      exact .ok (.of_neg hlisted (playlistErrno_neg e))
    | ok text =>
      obtain ⟨hfile, hdirectory⟩ := hok text rfl
      rw [splOpen_eq hdir hname, hopen, ok_bind]
      dsimp only
      split
      · next e _ =>
        exact .ok (.of_neg hlisted (playlistErrno_neg e))
      · split
        · exact .ok (.of_neg hlisted (by decide))
        · rw [hprint, ok_bind]
          refine .ok ⟨⟨.inl ?_, fun hdir' => ?_⟩, fun hne => absurd rfl hne⟩
          · refine (Function.update_self ..).trans (congrArg some ?_)
            rw [hfile, if_pos rfl, fileText, fileText, flatMap_append, flatMap_singleton]
            rfl
          · exact absurd (hdirectory.symm.trans hdir') Bool.false_ne_true

variable [StringAllocator] [EntryAllocator]

/-- **An edit does what it should.** -/
theorem Edit.perform_succeeds (hinv : ∀ u, c.toUtf8 (c.toFs u) = u)
    (h : s.Inv c (playlistPath c dir name)) (edit : Edit) :
    (edit.perform c getSong name s.disk).Succeeds
      (Edited c (playlistPath c dir name) s.listed (edit.expected getSong s.listed)) := by
  cases edit with
  | appendSong song => exact splAppendSong_succeeds hdir hname hrelative song h.listed
  | appendUri url =>
    rw [perform, splAppendUri, expected, appended]
    split
    · exact splAppendSong_succeeds hdir hname hrelative ⟨url, none⟩ h.listed
    · split
      · exact .ok (.of_neg h.listed (by decide))
      · next song hsong =>
        rw [hsong]
        exact splAppendSong_succeeds hdir hname hrelative song h.listed
  | move src dest =>
    exact (splMoveIndex_succeeds hdir hname hinv hrelative h.kept h.length h.listed src dest).mono
      fun r hr => hr.1
  | remove pos =>
    exact (splRemoveIndex_succeeds hdir hname hinv hrelative h.kept h.length h.listed pos).mono
      fun r hr => hr.1

theorem Edit.run_yields (hinv : ∀ u, c.toUtf8 (c.toFs u) = u)
    (h : s.Inv c (playlistPath c dir name)) {edit : Edit} (hsafe : edit.Safe c getSong s) :
    (edit.run c getSong name s).Yields (Editing.Inv c (playlistPath c dir name)) := by
  refine (edit.perform_succeeds hdir hname hrelative hinv h).yields.bind ?_
  rintro ⟨ret, d⟩ hedited
  refine .ok ⟨hedited.listed, ?_, ?_⟩
  · intro uri huri
    split at huri
    · obtain hmem | happended := mem_expected huri
      · exact h.kept uri hmem
      · exact (hsafe uri happended).1
    · exact h.kept uri huri
  · have hlength := h.length
    split
    · refine length_expected_le.trans ?_
      split
      · next happended =>
        obtain ⟨uri, huri⟩ := Option.isSome_iff_exists.mp happended
        exact (hsafe uri huri).2
      · exact hlength
    · exact hlength

/-- **Moving and removing entries keeps the others.** A playlist has been built by appending songs
and URIs, and edited. It lists what it should, and it does after its entries are moved or removed.
If an edit fails, the operating system has not done what it was asked for, and the playlist lists
what it did before. -/
theorem edits_listed (hinv : ∀ u, c.toUtf8 (c.toFs u) = u)
    (hfile : d.files (playlistPath c dir name) = none)
    (h : Reaches (Edit.run c getSong name) (Edit.Safe c getSong) ⟨d, []⟩ s) :
    Lists c (playlistPath c dir name) s.disk s.listed ∧
    (∀ src < s.listed.length, ∀ dest < s.listed.length,
      (splMoveIndex c name src dest s.disk).Succeeds fun r =>
        r.1 = 0 ∧ Lists c (playlistPath c dir name) r.2 (moved s.listed src dest) ∨
        r.1 < 0 ∧ Lists c (playlistPath c dir name) r.2 s.listed ∧ ¬ Willing s.disk) ∧
    ∀ pos < s.listed.length, (splRemoveIndex c name pos s.disk).Succeeds fun r =>
        r.1 = 0 ∧ Lists c (playlistPath c dir name) r.2 (s.listed.eraseIdx pos) ∨
        r.1 < 0 ∧ Lists c (playlistPath c dir name) r.2 s.listed ∧ ¬ Willing s.disk := by
  have hI : s.Inv c (playlistPath c dir name) := by
    refine h.invariant ⟨⟨.inr ⟨rfl, hfile⟩, fun _ => rfl⟩, ?_, Nat.zero_le _⟩ ?_
    · exact fun uri huri => absurd huri not_mem_nil
    · exact fun edit t hsafe ht => edit.run_yields hdir hname hrelative hinv ht hsafe
  refine ⟨hI.listed.lists, fun src hsrc dest hdest => ?_, fun pos hpos => ?_⟩
  · refine (splMoveIndex_succeeds hdir hname hinv hrelative hI.kept hI.length hI.listed src
      dest).mono fun r hr => ?_
    exact hr.1.lists_or fun hw => hr.2 hw ⟨hsrc, hdest⟩
  · exact (splRemoveIndex_succeeds hdir hname hinv hrelative hI.kept hI.length hI.listed pos).mono
      fun r hr => hr.1.lists_or fun hw => hr.2 hw hpos

end Runs

theorem kept_plain (hreadable : Reader.Readable uri) (hscheme : uriHasScheme uri = false)
    (hhead : uri.head?.all (fun ch => ch = '#' || ch = '/') = false) :
    Kept (plainConfig (some dir)) uri where
  readable := hreadable
  nonempty := by
    rintro rfl
    cases hhead
  noComment hcomment := by
    rw [show uri.head? = some '#' from hcomment] at hhead
    cases hhead
  remote hremote := absurd (hscheme.symm.trans hremote) Bool.false_ne_true
  relative _ := by
    refine ⟨fun hroot => ?_, fun hmusic => ?_⟩
    · rw [show uri.head? = some '/' from hroot] at hhead
      cases hhead
    · obtain ⟨dir', hdir', -⟩ := hmusic
      cases hdir'

theorem edits_listed_remove : ∃ s : Editing, s.listed = ["a.mp3".toList, "b.mp3".toList] ∧
      Reaches (Edit.run (plainConfig (some "/p".toList)) (fun _ => none) "l".toList)
        (Edit.Safe (plainConfig (some "/p".toList)) (fun _ => none)) ⟨emptyDisk, []⟩ s ∧
      (splRemoveIndex (plainConfig (some "/p".toList)) "l".toList 0 s.disk).Succeeds fun r =>
        r.1 = 0 ∧
          Lists (plainConfig (some "/p".toList)) "/p/l.m3u".toList r.2 ["b.mp3".toList] := by
  have hkept : ∀ uri ∈ ["a.mp3".toList, "b.mp3".toList],
      Kept (plainConfig (some "/p".toList)) uri := by
    rw [forall_mem_cons, forall_mem_singleton]
    exact ⟨kept_plain ⟨by decide, by decide, by decide, by decide⟩ (by decide) (by decide),
      kept_plain ⟨by decide, by decide, by decide, by decide⟩ (by decide) (by decide)⟩
  have hsafe : ∀ uri ∈ ["a.mp3".toList, "b.mp3".toList], ∀ s : Editing, s.listed.length < 2 →
      (Edit.appendSong ⟨uri, none⟩).Safe (plainConfig (some "/p".toList)) (fun _ => none) s := by
    intro uri huri s hs uri' huri'
    obtain rfl := Option.some.inj huri'
    exact ⟨hkept uri huri, hs.trans (by decide)⟩
  have hreach : Reaches (Edit.run (plainConfig (some "/p".toList)) (fun _ => none) "l".toList)
      (Edit.Safe (plainConfig (some "/p".toList)) (fun _ => none)) ⟨emptyDisk, []⟩ _ :=
    .step (.step .refl (hsafe "a.mp3".toList (by decide) _ (by decide)) rfl)
      (hsafe "b.mp3".toList (by decide) _ (by decide)) rfl
  have hdir : (plainConfig (some "/p".toList)).playlistDir = some "/p".toList := rfl
  refine ⟨_, ?_, hreach, ?_⟩
  · rfl
  · refine ((edits_listed hdir (by decide) rfl (fun _ => rfl) rfl hreach).2.2 0 (by decide)).mono ?_
    rintro r (hr | ⟨-, -, hwilling⟩)
    · exact hr
    · exact absurd (fun _ _ => rfl) hwilling

theorem not_listed_comment : ∃ s : Editing, s.listed = ["#1.mp3".toList, "b.mp3".toList] ∧
      Reaches (Edit.run (plainConfig (some "/p".toList)) (fun _ => none) "l".toList)
        (fun _ _ => True) ⟨emptyDisk, []⟩ s ∧
      (splRemoveIndex (plainConfig (some "/p".toList)) "l".toList 0 s.disk).Succeeds fun r =>
        r.1 = 0 ∧ r.2.files "/p/l.m3u".toList = some [] ∧
        ¬ Lists (plainConfig (some "/p".toList)) "/p/l.m3u".toList r.2 ["b.mp3".toList] := by
  obtain ⟨s, hreach, hlisted, hremove⟩ := exists_reaches
    (Edit.run (plainConfig (some "/p".toList)) (fun _ => none) "l".toList) (fun _ _ => True)
    ⟨emptyDisk, []⟩
    [.appendSong ⟨"#1.mp3".toList, none⟩, .appendSong ⟨"b.mp3".toList, none⟩]
    (P := fun s => s.listed = ["#1.mp3".toList, "b.mp3".toList] ∧
      (splRemoveIndex (plainConfig (some "/p".toList)) "l".toList 0 s.disk).Succeeds fun r =>
        r.1 = 0 ∧ r.2.files "/p/l.m3u".toList = some []) (by decide)
  refine ⟨s, hlisted, hreach, hremove.mono ?_⟩
  rintro r ⟨hret, hfile⟩
  refine ⟨hret, hfile, ?_⟩
  rw [Lists, hfile]
  decide

end Stored

end Mpd
