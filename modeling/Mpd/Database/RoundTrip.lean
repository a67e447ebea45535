import Mpd.Database.Loading
import Mpd.Database.SongFile
import Mpd.State.TextFile

/-!
# Saving and loading the database

A tree that is saved and loaded into an empty root directory is the same afterwards, apart from
where it is in memory (`loadInternal_saveInternal`).

That is not so for every tree that the update thread can build. A carriage return at the end of a
name is taken for a part of the newline, lines are read up to a maximum length, white space in front
of a tag's value is removed, a negative duration is not written, and the time of modification of a
song is read with `atoi`, while those of playlists and directories are read with 64 bits
(`not_reloaded`). The time of modification of the root directory is not stored.

A load that does not run out of rounds does not depend on their number. `Runs` says what it does,
and the rules for it are those of the loop: at the end, and before a line.
-/

namespace Mpd

open Text

open List Nat

/-! ### What a tree contains -/

namespace Node

mutual

def contents : Node → Node
  | ⟨_, path, _, mtime, children, songs, playlists⟩ =>
    ⟨0, path, none, mtime, contentsOf children, songs.map Song.contents, playlists⟩

def contentsOf : List Node → List Node
  | [] => []
  | child :: children => child.contents :: contentsOf children

end

theorem contentsOf_eq (l : List Node) : contentsOf l = l.map contents := by
  induction l with
  | nil => rw [contentsOf, map_nil]
  | cons child l ih => rw [contentsOf, ih, map_cons]

theorem contents_eq (d : Node) : d.contents = ⟨0, d.path, none, d.mtime, d.children.map contents,
      d.songs.map Song.contents, d.playlists⟩ := by
  cases d
  rw [contents, contentsOf_eq]

/-- What the update thread puts into a directory, besides what makes the tree well-formed: there is
no newline in a name, tag items are made by `tag_add_item`, and no two playlists have the same
name. -/
structure Built [Utf8] (config : DbConfig) (d : Node) : Prop where
  child_name : ∀ c ∈ d.children, '\n' ∉ c.name ∧ '\x00' ∉ c.name
  song_name : ∀ s ∈ d.songs, '\n' ∉ s.uri ∧ '\x00' ∉ s.uri
  playlist_name : ∀ pm ∈ d.playlists, '\n' ∉ pm.name ∧ '\x00' ∉ pm.name
  playlists : (d.playlists.map PlaylistMetadata.name).Nodup
  item : ∀ s ∈ d.songs, ∀ tag ∈ s.tag, ∀ item ∈ tag.items,
    config.ignored item.type = false ∧ Produced item.value

/-- The file keeps what is in a directory: no name ends with a carriage return, no tag value begins
with a space, every duration is known or `-1`, and times of modification of songs fit into 32
bits. -/
structure Kept (d : Node) : Prop where
  child_name : ∀ c ∈ d.children, c.name.getLast? ≠ some '\r'
  song_name : ∀ s ∈ d.songs, s.uri.getLast? ≠ some '\r'
  playlist_name : ∀ pm ∈ d.playlists, pm.name.getLast? ≠ some '\r'
  time : ∀ s ∈ d.songs, ∀ tag ∈ s.tag, tag.time = -1 ∨ 0 ≤ tag.time
  space : ∀ s ∈ d.songs, ∀ tag ∈ s.tag, ∀ item ∈ tag.items, item.value.head? ≠ some ' '
  mtime : ∀ s ∈ d.songs, -2 ^ 31 ≤ s.mtime.toInt ∧ s.mtime.toInt < 2 ^ 31

/-- The names, songs and playlists in a directory are read as they are written. -/
structure Storable [Utf8] (config : DbConfig) (d : Node) : Prop where
  child_name : ∀ c ∈ d.children, Plain c.name
  song : ∀ s ∈ d.songs, s.Storable config.ignored
  playlist_name : ∀ pm ∈ d.playlists, Plain pm.name
  playlists : (d.playlists.map PlaylistMetadata.name).Nodup

theorem Built.storable [Utf8] {config : DbConfig} {d : Node} (h : d.Built config) (hkept : d.Kept) :
    d.Storable config where
  child_name c hc := ⟨(h.child_name c hc).1, (h.child_name c hc).2, hkept.child_name c hc⟩
  song s hs :=
    { name := ⟨(h.song_name s hs).1, (h.song_name s hs).2, hkept.song_name s hs⟩
      tag := fun tag htag =>
        { time := hkept.time s hs tag htag
          type := fun item hitem => (h.item s hs tag htag item hitem).1
          produced := fun item hitem => (h.item s hs tag htag item hitem).2
          space := hkept.space s hs tag htag }
      mtime_ge := (hkept.mtime s hs).1
      mtime_lt := (hkept.mtime s hs).2 }
  playlist_name pm hpm :=
    ⟨(h.playlist_name pm hpm).1, (h.playlist_name pm hpm).2, hkept.playlist_name pm hpm⟩
  playlists := h.playlists

end Node

namespace SimpleDb

open Node

section Loading

theorem headRead_save (child : Node) (mtime : Int64) (path : Text) :
    headRead child ((mtimeLabel ++ Nat.toDigits 10 mtime.toUInt64.toNat) ::
      (directoryBegin ++ path) :: lines) = (.ok { child with mtime := mtime }, lines) := by
  have hread : Text.strtoul (Nat.toDigits 10 mtime.toUInt64.toNat) =
      (mtime.toUInt64.toNat, []) := by
    have hle : mtime.toUInt64.toNat ≤ Text.ulongMax :=
      le_of_lt_succ (mtime.toUInt64.toNat_lt.trans_le (by decide))
    have h : Text.strtoul (Nat.toDigits 10 mtime.toUInt64.toNat ++ []) = _ :=
      strtoul_toDigits hle (by rintro ch ⟨⟩)
    rwa [append_nil] at h
  rw [headRead, behind_append]
  dsimp only
  rw [beginRead, behind_append, Option.isSome_some, if_pos rfl, hread]
  simp

theorem headerLoad_line (h : headerRead config header line = some header') :
    headerLoad config header (line :: lines) = headerLoad config header' lines := by
  have hend : line ≠ infoEnd := by
    rintro rfl
    cases h
  rw [headerLoad, if_neg hend, h]

theorem headerRead_charset (h : header.foundCharset = false) :
    headerRead config header (charsetLabel ++ charsetText config) =
      some { header with foundCharset := true } := by
  have hany : (config.charset.any fun old => decide (charsetText config ≠ old)) = false := by
    rw [charsetText]
    cases config.charset with
    | none => rfl
    | some charset => simp
  rw [headerRead, show Text.behind formatLabel (charsetLabel ++ charsetText config) = none from rfl,
    show Text.behind versionLabel (charsetLabel ++ charsetText config) = none from rfl,
    behind_append]
  dsimp only
  rw [h, hany]
  rfl

theorem headerLoad_tags (types : List TagType) (header : Header) : headerLoad config header
        (types.map (fun type => tagLabel ++ type.itemName) ++ infoEnd :: lines) =
      (some { header with tags := types.reverse ++ header.tags }, lines) := by
  induction types generalizing header with
  | nil =>
    rfl
  | cons type types ih =>
    have hread : headerRead config header (tagLabel ++ type.itemName) =
        some { header with tags := type :: header.tags } := by
      rw [headerRead, show Text.behind formatLabel (tagLabel ++ type.itemName) = none from rfl,
        show Text.behind versionLabel (tagLabel ++ type.itemName) = none from rfl,
        show Text.behind charsetLabel (tagLabel ++ type.itemName) = none from rfl,
        behind_append, Option.bind_some, Tag.nameParse_itemName]
      rfl
    rw [map_cons, cons_append, headerLoad_line hread, ih, reverse_cons,
      append_assoc, singleton_append]

variable [Utf8] {config : DbConfig} {d d' t child child' : Node} {st st' : Loading}
  {lines rest : List Text} {line name : Text} {r : Option DbError × Node × Loading}

/-! ### Loading, whatever the number of rounds -/

def Runs (config : DbConfig) (d : Node) (st : Loading) (r : Option DbError × Node × Loading) :
    Prop :=
  ∀ rounds, st.lines.length < rounds → loadLoop config rounds d st = .ok r

theorem runs_nil (hlines : st.lines = []) : Runs config d st (none, d, st) := by
  intro rounds hrounds
  obtain ⟨rounds, rfl⟩ := exists_eq_succ_of_ne_zero (ne_of_gt (zero_lt_of_lt hrounds))
  rw [loadLoop, hlines]

theorem runs_end (hlines : st.lines = line :: lines)
    (hend : (Text.behind directoryEnd line).isSome = true) :
    Runs config d st (none, d, { st with lines := lines }) := by
  intro rounds hrounds
  obtain ⟨rounds, rfl⟩ := exists_eq_succ_of_ne_zero (ne_of_gt (zero_lt_of_lt hrounds))
  rw [loadLoop, hlines]
  exact if_pos hend

theorem Runs.step (hlines : st.lines = line :: lines) (hend : Text.behind directoryEnd line = none)
    (hentry : ∀ rounds, lines.length < rounds →
      loadEntry config (logged (loadLoop config rounds)) d line { st with lines := lines } =
        .ok (none, d', st'))
    (hle : st'.lines.length ≤ lines.length) (h : Runs config d' st' r) : Runs config d st r := by
  intro rounds hrounds
  obtain ⟨rounds, rfl⟩ := exists_eq_succ_of_ne_zero (ne_of_gt (zero_lt_of_lt hrounds))
  rw [hlines, length_cons] at hrounds
  have hlt : lines.length < rounds := lt_of_succ_lt_succ hrounds
  rw [loadLoop, hlines]
  dsimp only
  rw [hend, Option.isSome_none, if_neg Bool.false_ne_true, hentry rounds hlt]
  exact h rounds (hle.trans_lt hlt)

/-! ### Songs and playlists -/

def placed (address : Address) (song : Song) : Song :=
  { song.contents with parent := some address }

omit [Utf8] in
theorem contents_placed (address : Address) (song : Song) :
    (placed address song).contents = song.contents := by
  have hfilter : ∀ tag : Option Tag, (tag.filter Tag.saves).filter Tag.saves =
      tag.filter Tag.saves := by
    intro tag
    cases tag with
    | none => rfl
    | some tag =>
      by_cases hsaves : Tag.saves tag = true
      · simp [Option.filter, hsaves]
      · simp [Option.filter, hsaves]
  rw [placed, Song.contents, Song.contents, hfilter]

theorem loadEntry_song {song : Song} (h : song.Storable config.ignored)
    (hname : song.uri ≠ [] ∧ '/' ∉ song.uri) (hnew : d.getSong song.uri = none) (load : Load)
    (hlines : st.lines = (songSave song).tail ++ rest) :
    loadEntry config load d (songBegin ++ song.uri) st =
      .ok (none, d.addSong (placed d.address song), { st with lines := rest }) := by
  have hslash : ¬ (song.uri = [] ∨ song.uri.head? = some '/') := by
    rintro (hnil | hhead)
    · exact hname.1 hnil
    · exact hname.2 (mem_of_mem_head? hhead)
  rw [loadEntry, show Text.behind directoryDir (songBegin ++ song.uri) = none from rfl,
    behind_append]
  dsimp only
  rw [loadSong, hnew, Option.isSome_none, if_neg Bool.false_ne_true, if_neg hslash, hlines,
    songLoad_songSave h]
  rfl

theorem runs_songs {songs : List Song} (h : ∀ s ∈ songs, s.Storable config.ignored)
    (hname : ∀ s ∈ songs, s.uri ≠ [] ∧ '/' ∉ s.uri)
    (hnodup : (t.songs.map Song.uri ++ songs.map Song.uri).Nodup)
    (hlines : st.lines = songs.flatMap songSave ++ rest)
    (hruns : Runs config { t with songs := t.songs ++ songs.map (placed t.address) }
      { st with lines := rest } r) : Runs config t st r := by
  induction songs generalizing t st with
  | nil =>
    cases t
    rw [map_nil, append_nil] at hruns
    rw [flatMap_nil, nil_append] at hlines
    rwa [← hlines] at hruns
  | cons song songs ih =>
    rw [forall_mem_cons] at h hname
    have hnew : t.getSong song.uri = none := by
      rw [getSong, find?_eq_none]
      intro s hs heq
      rw [nodup_append] at hnodup
      exact hnodup.2.2 _ (mem_map_of_mem hs) _ mem_cons_self (of_decide_eq_true heq)
    rw [flatMap_cons, append_assoc] at hlines
    refine Runs.step hlines rfl (fun rounds _ => loadEntry_song h.1 hname.1 hnew _ rfl) ?_ ?_
    · exact (suffix_append _ _).length_le
    · refine ih h.2 hname.2 ?_ rfl ?_
      · rw [addSong, map_append, map_singleton, append_assoc]
        exact hnodup
      · rw [map_cons] at hruns
        rw [addSong]
        dsimp only
        rw [append_assoc]
        exact hruns

theorem loadEntry_playlist {pm : PlaylistMetadata} (hnew : ∀ p ∈ d.playlists, p.name ≠ pm.name)
    (load : Load) (hlines : st.lines = (playlistSave pm).tail ++ rest) :
    loadEntry config load d (playlistBegin ++ pm.name) st =
      .ok (none, { d with playlists := d.playlists ++ [pm] }, { st with lines := rest }) := by
  rw [loadEntry, show Text.behind directoryDir (playlistBegin ++ pm.name) = none from rfl,
    show Text.behind songBegin (playlistBegin ++ pm.name) = none from rfl, behind_append]
  dsimp only
  rw [loadPlaylist, hlines, playlistLoad_playlistSave]
  dsimp only
  rw [updateOrAdd_eq hnew]

theorem runs_playlists {playlists : List PlaylistMetadata}
    (hnodup : (t.playlists.map PlaylistMetadata.name ++ playlists.map PlaylistMetadata.name).Nodup)
    (hlines : st.lines = playlists.flatMap playlistSave ++ rest)
    (hruns : Runs config { t with playlists := t.playlists ++ playlists }
      { st with lines := rest } r) : Runs config t st r := by
  induction playlists generalizing t st with
  | nil =>
    cases t
    rw [append_nil] at hruns
    rw [flatMap_nil, nil_append] at hlines
    rwa [← hlines] at hruns
  | cons pm playlists ih =>
    have hnew : ∀ p ∈ t.playlists, p.name ≠ pm.name := by
      intro p hp heq
      rw [nodup_append] at hnodup
      exact hnodup.2.2 _ (mem_map_of_mem hp) _ mem_cons_self heq
    rw [flatMap_cons, append_assoc] at hlines
    refine Runs.step hlines rfl (fun rounds _ => loadEntry_playlist hnew _ rfl) ?_ ?_
    · exact (suffix_append _ _).length_le
    · refine ih ?_ rfl ?_
      · rw [map_append, map_singleton, append_assoc]
        exact hnodup
      · dsimp only
        rw [append_assoc]
        exact hruns

/-! ### Directories -/

omit [Utf8] in
theorem pathGetBasename_eq (hname : child.name ≠ [] ∧ '/' ∉ child.name)
    (hpath : child.path = d.childPath child.name) : pathGetBasename child.path = child.name := by
  obtain ⟨front, hfront⟩ : ∃ front, child.path = front ++ child.name := by
    rw [childPath] at hpath
    split at hpath
    · exact ⟨[], hpath⟩
    · exact ⟨d.path ++ ['/'], by rw [hpath, append_assoc, singleton_append]⟩
  have hne : child.path ≠ [] := by
    rw [hfront]
    exact append_ne_nil_of_right_ne_nil _ hname.1
  have hstrip : child.path.rdropWhile (· = '/') = child.path := by
    refine rdropWhile_eq_self_iff.mpr fun hl hslash => ?_
    have hlast : child.path.getLast hl ∈ child.name := by
      simp only [hfront, getLast_append_of_ne_nil _ hname.1, getLast_mem]
    exact hname.2 (of_decide_eq_true hslash ▸ hlast)
  rw [pathGetBasename, if_neg hne]
  dsimp only
  rw [hstrip, if_neg hne]
  rfl

def entriesSave (d : Node) : List Text :=
  childrenSave d.children ++ (d.songs.flatMap songSave ++ d.playlists.flatMap playlistSave)

omit [Utf8] in
theorem directorySave_root (h : d.isRoot = true) : directorySave d = entriesSave d := by
  obtain ⟨address, path, parent, mtime, children, songs, playlists⟩ := d
  rw [isRoot] at h
  rw [directorySave, entriesSave, if_pos h, if_pos h, nil_append, append_nil, append_assoc]

omit [Utf8] in
theorem directorySave_of_not_root (h : d.isRoot = false) : directorySave d =
    (mtimeLabel ++ Nat.toDigits 10 d.mtime.toUInt64.toNat) :: (directoryBegin ++ d.path) ::
      (entriesSave d ++ [directoryEnd ++ d.path]) := by
  obtain ⟨address, path, parent, mtime, children, songs, playlists⟩ := d
  have hneg : ¬ parent.isNone = true := Bool.eq_false_iff.mp h
  rw [directorySave, entriesSave, if_neg hneg, if_neg hneg]
  simp only [cons_append, nil_append, append_assoc]

theorem loadEntry_directory {load : Load} (hname : name ≠ []) (hnew : t.getChild name = none)
    (hfresh : ∀ c ∈ t.children, c.address < st.next)
    (hhead : headRead (t.newChild st.next name) st.lines = (.ok child, lines))
    (hload : load child { st with lines := lines, next := st.next + 1 } = .ok (none, child', st'))
    (haddress : child'.address = st.next) :
    loadEntry config (logged load) t (directoryDir ++ name) st =
      .ok (none, t.addChild child',
        (st'.returned (.load child'.address none)).returned (.loadSubdir t.address none)) := by
  have hothers : ∀ c ∈ t.children, c.address ≠ (t.newChild st.next name).address :=
    fun c hc => (hfresh c hc).ne
  have hlogged : logged load child { st with lines := lines, next := st.next + 1 } =
      .ok (none, child', st'.returned (.load child'.address none)) := by
    rw [logged, hload]
    rfl
  have hsub : directoryLoadSubdir (logged load) t name st =
      .ok (none, t.addChild child', st'.returned (.load child'.address none)) := by
    rw [directoryLoadSubdir, hnew, Option.isSome_none, if_neg Bool.false_ne_true, if_neg hname]
    dsimp only
    rw [hhead]
    dsimp only
    rw [hlogged, ← update_addChild hothers haddress]
    rfl
  rw [loadEntry, behind_append]
  dsimp only
  rw [hsub]
  rfl

def Reloads (config : DbConfig) (d : Node) : Prop :=
  ∀ (address : Address) (parent : Option Address) (mtime : Int64) (st : Loading)
    (rest : List Text), parent.isNone = d.isRoot → st.lines = entriesSave d ++ rest →
    ∃ children st', children.map contents = d.children.map contents ∧ st'.lines = rest ∧
      st.next ≤ st'.next ∧
      ∀ r, Runs config ⟨address, d.path, parent, mtime, children, d.songs.map (placed address),
        d.playlists⟩ st' r → Runs config ⟨address, d.path, parent, mtime, [], [], []⟩ st r

omit [Utf8] in
theorem contents_reloaded {children : List Node} {parent : Option Address}
    (h : children.map contents = d.children.map contents) (address : Address) (mtime : Int64) :
    contents ⟨address, d.path, parent, mtime, children, d.songs.map (placed address),
      d.playlists⟩ = { d.contents with mtime := mtime } := by
  have hsongs : (d.songs.map (placed address)).map Song.contents = d.songs.map Song.contents := by
    rw [map_map]
    exact map_congr_left fun song _ => contents_placed address song
  rw [contents_eq, contents_eq]
  dsimp only
  rw [h, hsongs]

theorem runs_children {l : List Node} (hload : ∀ c ∈ l, Reloads config c)
    (hname : ∀ c ∈ l, c.name ≠ [] ∧ '/' ∉ c.name) (hpath : ∀ c ∈ l, c.path = t.childPath c.name)
    (hroot : ∀ c ∈ l, c.isRoot = false)
    (hnodup : (t.children.map Node.name ++ l.map Node.name).Nodup)
    (hfresh : ∀ c ∈ t.children, c.address < st.next)
    (hlines : st.lines = childrenSave l ++ rest) :
    ∃ l' st', l'.map contents = l.map contents ∧ st'.lines = rest ∧ st.next ≤ st'.next ∧
      ∀ r, Runs config { t with children := t.children ++ l' } st' r → Runs config t st r := by
  induction l generalizing t st with
  | nil =>
    refine ⟨[], st, rfl, ?_, le_rfl, fun r hruns => ?_⟩
    · rwa [childrenSave, nil_append] at hlines
    · cases t
      rwa [append_nil] at hruns
  | cons c l ih =>
    rw [forall_mem_cons] at hload hname hpath hroot
    rw [childrenSave, pathGetBasename_eq hname.1 hpath.1,
      directorySave_of_not_root hroot.1] at hlines
    simp only [cons_append, append_assoc, nil_append] at hlines
    have hnew : t.getChild c.name = none := by
      rw [getChild, find?_eq_none]
      intro c' hc' heq
      rw [nodup_append] at hnodup
      exact hnodup.2.2 _ (mem_map_of_mem hc') _ mem_cons_self (of_decide_eq_true heq)
    -- the contents of the first subdirectory, and the line that ends it
    obtain ⟨children, st₁, hcontents, hlines₁, hnext₁, hstep⟩ := hload.1 st.next (some t.address)
      c.mtime ⟨entriesSave c ++ (directoryEnd ++ c.path) :: (childrenSave l ++ rest), st.next + 1,
        st.returns⟩ _ (by rw [hroot.1]; rfl) rfl
    let child' : Node := ⟨st.next, c.path, some t.address, c.mtime, children,
      c.songs.map (placed st.next), c.playlists⟩
    have hchild := hstep _ (runs_end hlines₁ (by rw [behind_append]; rfl))
    have hempty : { t.newChild st.next c.name with mtime := c.mtime } =
        (⟨st.next, c.path, some t.address, c.mtime, [], [], []⟩ : Node) := by
      rw [hpath.1]
      rfl
    have hnames : (t.addChild child').children.map Node.name =
        t.children.map Node.name ++ [c.name] := map_append
    -- the other subdirectories
    let st₂ : Loading := (Loading.returned ⟨childrenSave l ++ rest, st₁.next, st₁.returns⟩
      (.load child'.address none)).returned (.loadSubdir t.address none)
    obtain ⟨l', st', hcontents', hlines', hnext', hrest⟩ := @ih (t.addChild child') st₂
      hload.2 hname.2 hpath.2 hroot.2
      (by rw [hnames, append_assoc]; exact hnodup)
      (forall_mem_append.mpr ⟨fun c' hc' => (hfresh c' hc').trans hnext₁,
        forall_mem_singleton.mpr hnext₁⟩) rfl
    refine ⟨child' :: l', st', ?_, hlines', (le_of_succ_le hnext₁).trans hnext', ?_⟩
    · rw [map_cons, map_cons, hcontents', contents_reloaded hcontents, contents_eq]
    · intro r hruns
      refine Runs.step hlines rfl (fun rounds hrounds => ?_) ?_ (hrest r ?_)
      · refine loadEntry_directory hname.1.1 hnew hfresh (headRead_save _ _ _) ?_ rfl
        rw [hempty]
        exact hchild rounds (hrounds.trans' (lt_succ_of_lt (lt_succ_self _)))
      · have hlines₂ : st₂.lines = childrenSave l ++ rest := rfl
        simp only [hlines₂, length_cons, length_append]
        omega
      · rw [addChild]
        dsimp only
        rw [append_assoc]
        exact hruns

/-- **A directory is loaded as it was saved**, if what is in it can be stored. -/
theorem reloads (htidy : ∀ n ∈ d.nodes, n.Tidy) (hstorable : ∀ n ∈ d.nodes, n.Storable config) :
    Reloads config d := by
  induction d using Node.induction with
  | step d ih =>
    intro address parent mtime st rest hparent hlines
    have hd : d.Tidy := htidy d d.self_mem_nodes
    have hds : d.Storable config := hstorable d d.self_mem_nodes
    have hload : ∀ c ∈ d.children, Reloads config c := fun c hc =>
      ih c hc (fun n hn => htidy n (mem_nodes.mpr (.inr ⟨c, hc, hn⟩)))
        fun n hn => hstorable n (mem_nodes.mpr (.inr ⟨c, hc, hn⟩))
    have hpath : ∀ name : Text,
        childPath ⟨address, d.path, parent, mtime, [], [], []⟩ name = d.childPath name := by
      intro name
      rw [childPath, childPath, ← hparent]
      rfl
    have hroot : ∀ c ∈ d.children, c.isRoot = false := by
      intro c hc
      rw [isRoot, hd.child_parent c hc]
      rfl
    rw [entriesSave, append_assoc, append_assoc] at hlines
    obtain ⟨children, st', hcontents, hlines', hnext, hruns⟩ :=
      runs_children hload hd.child_name
        (fun c hc => (hd.child_path c hc).trans (hpath _).symm) hroot hd.names
        (fun _ hc => absurd hc not_mem_nil) hlines
    refine ⟨children, { st' with lines := rest }, hcontents, rfl, hnext, fun r hr => ?_⟩
    refine hruns r (runs_songs hds.song hd.song_name hd.songNames hlines' ?_)
    exact runs_playlists hds.playlists rfl hr

/-! ### The lines before the tree -/

theorem loadInternal_saveLines (root d : Node) (next : Address) (returns : List Return) :
    loadInternal config d ⟨saveLines config root, next, returns⟩ =
      directoryLoad config d ⟨directorySave root, next, returns⟩ := by
  let tags := tagTypes.filter fun type => !config.ignored type
  have hformat : headerRead config ⟨0, false, false, []⟩ (formatLabel ++ ['1']) =
      some ⟨1, false, false, []⟩ := rfl
  have hversion : headerRead config ⟨1, false, false, []⟩ (versionLabel ++ config.version) =
      some ⟨1, false, true, []⟩ := by
    rfl
  have hheader : headerLoad config ⟨0, false, false, []⟩ (saveLines config root).tail =
      (some ⟨1, true, true, tags.reverse⟩, directorySave root) := by
    rw [saveLines, append_assoc, cons_append, tail_cons, cons_append,
      headerLoad_line hformat, cons_append, headerLoad_line hversion, cons_append,
      headerLoad_line (headerRead_charset rfl), nil_append, headerLoad_tags, append_nil]
  have hfits : Header.fits config ⟨1, true, true, tags.reverse⟩ = true := by
    have hall : (tagTypes.all fun type => config.ignored type || type ∈ tags.reverse) = true := by
      rw [all_eq_true]
      intro type htype
      cases hignored : config.ignored type with
      | true => rfl
      | false =>
        refine decide_eq_true (mem_reverse.mpr (mem_filter.mpr ⟨htype, ?_⟩))
        rw [hignored]
        rfl
    exact hall
  have hlines : saveLines config root = infoBegin :: (saveLines config root).tail := rfl
  rw [loadInternal, hlines]
  dsimp only
  rw [if_neg (fun hne => hne rfl), hheader]
  dsimp only
  rw [if_pos hfits]

/-! ### The lines of the file -/

omit [Utf8] in
theorem plain_childPath (hd : Plain d.path) (hname : Plain name) : Plain (d.childPath name) := by
  rw [childPath]
  split
  · exact hname
  · exact hd.append (Plain.append (s := ['/']) (by decide) hname)

theorem plain_directorySave (hpath : Plain d.path) (htidy : ∀ n ∈ d.nodes, n.Tidy)
    (hstorable : ∀ n ∈ d.nodes, n.Storable config) : ∀ line ∈ directorySave d, Plain line := by
  induction d using Node.induction with
  | step d ih =>
    have hd : d.Tidy := htidy d d.self_mem_nodes
    have hds : d.Storable config := hstorable d d.self_mem_nodes
    have hchildren : ∀ l, (∀ c ∈ l, c ∈ d.children) → ∀ line ∈ childrenSave l, Plain line := by
      intro l hl
      induction l with
      | nil => rw [childrenSave]; exact fun _ hline => nomatch hline
      | cons c l ihl =>
        rw [forall_mem_cons] at hl
        have hpath' : Plain c.path := by
          rw [hd.child_path c hl.1]
          exact plain_childPath hpath (hds.child_name c hl.1)
        rw [childrenSave, pathGetBasename_eq (hd.child_name c hl.1) (hd.child_path c hl.1),
          cons_append, forall_mem_cons, forall_mem_append]
        refine ⟨Plain.append (by decide) (hds.child_name c hl.1), ?_, ihl hl.2⟩
        exact ih c hl.1 hpath' (fun n hn => htidy n (mem_nodes.mpr (.inr ⟨c, hl.1, hn⟩)))
          fun n hn => hstorable n (mem_nodes.mpr (.inr ⟨c, hl.1, hn⟩))
    have hentries : ∀ line ∈ entriesSave d, Plain line := by
      rw [entriesSave, forall_mem_append, forall_mem_append]
      refine ⟨hchildren _ fun _ hc => hc, ?_, ?_⟩
      · intro line hline
        obtain ⟨song, hsong, hline⟩ := mem_flatMap.mp hline
        exact plain_songSave (hds.song song hsong) line hline
      · intro line hline
        obtain ⟨pm, hpm, hline⟩ := mem_flatMap.mp hline
        exact plain_playlistSave (hds.playlist_name pm hpm) line hline
    cases hroot : d.isRoot with
    | true =>
      rw [directorySave_root hroot]
      exact hentries
    | false =>
      rw [directorySave_of_not_root hroot, forall_mem_cons, forall_mem_cons,
        forall_mem_append, forall_mem_singleton]
      exact ⟨Plain.append (by decide) (plain_toDigits _), Plain.append (by decide) hpath, hentries,
        Plain.append (by decide) hpath⟩

/-- What stands in the lines before the tree. -/
structure PlainConfig (config : DbConfig) : Prop where
  version : Plain config.version
  charset : Plain (charsetText config)

theorem plain_saveLines {root : Node} (hconfig : PlainConfig config) (h : root.WellFormed)
    (hstorable : ∀ n ∈ root.nodes, n.Storable config) :
    ∀ line ∈ saveLines config root, Plain line := by
  have hpath : Plain root.path := by
    rw [h.path]
    decide
  have htags : ∀ line ∈ (tagTypes.filter fun type => !config.ignored type).map
      (fun type => tagLabel ++ type.itemName), Plain line := by
    intro line hline
    obtain ⟨type, -, rfl⟩ := mem_map.mp hline
    cases type <;> decide
  rw [saveLines, append_assoc, forall_mem_append, forall_mem_append,
    forall_mem_cons, forall_mem_cons, forall_mem_cons, forall_mem_singleton,
    forall_mem_cons]
  exact ⟨⟨by decide, by decide, Plain.append (by decide) hconfig.version,
    Plain.append (by decide) hconfig.charset⟩, htags, by decide,
    plain_directorySave hpath h.tidy hstorable⟩

/-! ### Saving and loading -/

/-- **A tree that is saved and loaded is the same afterwards**, if the file keeps what is in its
directories and no line is too long to be read. -/
theorem loadInternal_saveInternal [StringAllocator] {root : Node} {b : LineBuffer}
    (hconfig : PlainConfig config) (h : root.WellFormed)
    (hbuilt : ∀ n ∈ root.nodes, n.Built config) (hkept : ∀ n ∈ root.nodes, n.Kept)
    (hlength : ∀ line ∈ saveLines config root, line.length + LineBuffer.step < LineBuffer.maxLength)
    (hb : b.len < LineBuffer.maxLength) (address next : Address) :
    (loadInternal config (newRoot address)
      ⟨(Reader.mk b (saveInternal config root)).lines, next, []⟩).Succeeds fun (error, d, _) =>
        error = none ∧ d.contents = { root.contents with mtime := 0 } := by
  have hstorable : ∀ n ∈ root.nodes, n.Storable config := fun n hn =>
    (hbuilt n hn).storable (hkept n hn)
  have hplain := plain_saveLines hconfig h hstorable
  have hlines : (Reader.mk b (saveInternal config root)).lines = saveLines config root :=
    Reader.lines_eq hb (fun line hline => ⟨(hplain line hline).newline, (hplain line hline).nul,
      (hplain line hline).cr, hlength line hline⟩) rfl
  have hnew : newRoot address = ⟨address, root.path, none, 0, [], [], []⟩ := by
    rw [h.path]
    rfl
  obtain ⟨children, st, hcontents, hrest, -, hruns⟩ := reloads h.tidy hstorable address none 0
    ⟨directorySave root, next, []⟩ [] h.isRoot.symm
    (by rw [directorySave_root h.isRoot, append_nil])
  have hloop := hruns _ (runs_nil hrest) _ (lt_succ_self _)
  rw [hlines, loadInternal_saveLines, directoryLoad, logged, hnew, hloop]
  exact .ok ⟨rfl, contents_reloaded hcontents address 0⟩

end Loading

def library : Node :=
  ⟨0, [], none, 0, [⟨1, "a".toList, some 0, 7, [],
      [⟨"s".toList, some 1, some ⟨180, true, [⟨.title, "t: u".toList⟩]⟩, -9, 500, 0⟩],
      [⟨"p.m3u".toList, 2 ^ 40⟩]⟩], [], []⟩

theorem loadInternal_saveInternal_library : library.children.map Node.mtime = [7] ∧
    (loadInternal plainConfig (newRoot 0)
      ⟨(Reader.mk ⟨0, 0⟩ (saveInternal plainConfig library)).lines, 1, []⟩).Succeeds
        fun (error, d, _) =>
          error = none ∧ d.contents = { library.contents with mtime := 0 } := by
  have hnodes : library.nodes = library :: library.children := by
    rfl
  have hbuilt : ∀ n ∈ library.nodes, n.Built plainConfig := by
    rw [hnodes, forall_mem_cons, library, forall_mem_singleton]
    refine ⟨⟨by decide, by decide, by decide, by decide, fun _ hs => nomatch hs⟩,
      ⟨by decide, by decide, by decide, by decide, ?_⟩⟩
    rintro s hs tag htag item hitem
    obtain rfl := mem_singleton.mp hs
    obtain rfl := Option.mem_some_iff.mp htag
    obtain rfl := mem_singleton.mp hitem
    exact ⟨rfl, "t: u".toList, by decide, by decide, by decide⟩
  have hkept : ∀ n ∈ library.nodes, n.Kept := by
    rw [hnodes, forall_mem_cons, library, forall_mem_singleton]
    exact ⟨⟨by decide, by decide, by decide, by decide, by decide, by decide⟩,
      ⟨by decide, by decide, by decide, by decide, by decide, by decide⟩⟩
  exact ⟨rfl, loadInternal_saveInternal ⟨by decide, by decide⟩
    ⟨rfl, rfl, by decide, by decide⟩ hbuilt hkept (by decide +kernel)
    (by decide) 0 1⟩

def single (song : Song) : Node :=
  ⟨0, [], none, 0, [], [song], []⟩

def returnSong : Song :=
  ⟨"s\r".toList, some 0, none, 0, 0, 0⟩

def spaceSong : Song :=
  ⟨"s".toList, some 0, some ⟨180, false, [⟨.title, " t".toList⟩]⟩, 0, 0, 0⟩

def lateSong : Song :=
  ⟨"s".toList, some 0, none, 2 ^ 31, 0, 0⟩

def negativeSong : Song :=
  ⟨"s".toList, some 0, some ⟨-2, true, []⟩, 0, 0, 0⟩

def changedSongs : List Song :=
  [returnSong, spaceSong, lateSong, negativeSong]

theorem built_single {config : DbConfig} {song : Song} (hname : '\n' ∉ song.uri ∧ '\x00' ∉ song.uri)
    (hitem : ∀ tag ∈ song.tag, ∀ item ∈ tag.items,
      config.ignored item.type = false ∧ Produced item.value) :
    ∀ n ∈ (single song).nodes, n.Built config := by
  have hnodes : (single song).nodes = [single song] := by
    exact congrArg _ nodesOf_nil
  rw [hnodes, forall_mem_singleton]
  exact ⟨(fun _ hc => nomatch hc), forall_mem_singleton.mpr hname,
    (fun _ hpm => nomatch hpm), nodup_nil, forall_mem_singleton.mpr hitem⟩

theorem not_reloaded : changedSongs.Forall fun song =>
      (single song).WellFormed ∧ (∀ n ∈ (single song).nodes, n.Built plainConfig) ∧
      ¬ (loadInternal plainConfig (newRoot 0)
        ⟨(Reader.mk ⟨0, 0⟩ (saveInternal plainConfig (single song))).lines, 1, []⟩).Succeeds
          fun (error, d, _) =>
            error = none ∧ d.contents = { (single song).contents with mtime := 0 } := by
  have htidy : ∀ song ∈ changedSongs, (∀ d ∈ (single song).nodes, d.Tidy) ∧
      ((single song).nodes.map Node.address).Nodup := by
    decide
  have hbuilt : ∀ song ∈ changedSongs, ∀ n ∈ (single song).nodes, n.Built plainConfig := by
    rw [changedSongs, forall_mem_cons, forall_mem_cons, forall_mem_cons, forall_mem_singleton]
    refine ⟨built_single (by decide) (fun _ htag => nomatch htag), built_single (by decide) ?_,
      built_single (by decide) (fun _ htag => nomatch htag), built_single (by decide) ?_⟩
    · rintro tag ⟨⟩
      rw [forall_mem_singleton]
      exact ⟨rfl, " t".toList, by decide, by decide, by decide⟩
    · rintro tag ⟨⟩
      exact fun _ hitem => nomatch hitem
  let shown : Song → Int64 × Option Int32 × List Text := fun s =>
    (s.mtime, s.tag.map Tag.time, s.uri :: s.tag.elim [] fun tag => tag.items.map TagItem.value)
  have hchanged : ∀ song ∈ changedSongs, (loadInternal plainConfig (newRoot 0)
        ⟨(Reader.mk ⟨0, 0⟩ (saveInternal plainConfig (single song))).lines, 1, []⟩).Succeeds
          fun r => (r.2.1.songs.map Song.contents).map shown ≠ [shown song.contents] := by
    decide +kernel
  rw [forall_iff_forall_mem]
  intro song hsong
  refine ⟨⟨rfl, rfl, (htidy song hsong).1, (htidy song hsong).2⟩, hbuilt song hsong, ?_⟩
  rintro ⟨r, hr, -, hcontents⟩
  obtain ⟨r', hr', hne⟩ := hchanged song hsong
  obtain rfl : r = r' := Except.ok.inj (hr.symm.trans hr')
  have hsongs : r.2.1.contents.songs = (single song).contents.songs :=
    congrArg Node.songs hcontents
  rw [contents_eq, contents_eq] at hsongs
  exact hne (congrArg (map shown) hsongs)

end SimpleDb

end Mpd
