import Mpd.Database.SimpleDb

/-!
# Songs and playlists in the database file

What `simple_db_song_save` and `simple_db_playlist_vector_save` write is what the functions that
load songs and playlists read, under conditions that `Song.Storable` collects: the reader removes
all white space in front of a value, and reads the modification time of a song with `atoi`.
-/

namespace Mpd

open List

/-! ### Text in a line -/

/-- A text that may stand at the end of a line: no newline or NUL is in it, and it does not end with
a carriage return, which would be taken for a part of the newline. -/
structure Plain (s : Text) : Prop where
  newline : '\n' ∉ s
  nul : '\x00' ∉ s
  cr : s.getLast? ≠ some '\r'

instance (s : Text) : Decidable (Plain s) :=
  decidable_of_iff ('\n' ∉ s ∧ '\x00' ∉ s ∧ s.getLast? ≠ some '\r')
    ⟨fun ⟨h₁, h₂, h₃⟩ => ⟨h₁, h₂, h₃⟩, fun h => ⟨h.newline, h.nul, h.cr⟩⟩

theorem Plain.append {s t : Text} (hs : Plain s) (ht : Plain t) : Plain (s ++ t) where
  newline h := (mem_append.mp h).elim hs.newline ht.newline
  nul h := (mem_append.mp h).elim hs.nul ht.nul
  cr := by
    rw [getLast?_append]
    cases hlast : t.getLast? with
    | none => exact hs.cr
    | some c =>
      rw [Option.some_or, ← hlast]
      exact ht.cr

theorem plain_of_printable {s : Text} (h : ∀ c ∈ s, charIsNonPrintable c = false) : Plain s where
  newline hmem := nomatch h _ hmem
  nul hmem := nomatch h _ hmem
  cr hlast := nomatch h _ (mem_of_getLast? hlast)

theorem plain_toDigits (n : ℕ) : Plain (Nat.toDigits 10 n) where
  newline := Text.notMem_toDigits rfl n
  nul := Text.notMem_toDigits rfl n
  cr h := Text.notMem_toDigits rfl n (mem_of_getLast? h)

theorem plain_intText (z : ℤ) : Plain (Text.intText z) := by
  cases z with
  | ofNat n => exact plain_toDigits n
  | negSucc n => exact Plain.append (s := ['-']) (by decide) (plain_toDigits (n + 1))

/-! ### What can be stored -/

def Produced [Utf8] (value : Text) : Prop :=
  ∃ raw : Text, raw ≠ [] ∧ '\x00' ∉ raw ∧ value = fixTagValue raw

theorem Produced.clean [Utf8] {value : Text} (h : Produced value) :
    CleanValue value ∧ value ≠ [] := by
  obtain ⟨raw, hne, hnul, rfl⟩ := h
  exact ⟨cleanValue_fixTagValue hnul, fixTagValue_ne_nil hne hnul⟩

theorem Produced.isSpace_head [Utf8] {value : Text} (h : Produced value)
    (hspace : value.head? ≠ some ' ') : ∀ c ∈ value.head?, Text.isSpace c = false := by
  intro c hc
  have hprintable := h.clean.1.printable c (mem_of_mem_head? hc)
  by_contra hwhite
  simp only [Text.isSpace, Bool.not_eq_false, Bool.or_eq_true, decide_eq_true_eq] at hwhite
  obtain (((rfl | rfl) | rfl) | rfl) | rfl := hwhite
  · exact hspace hc
  all_goals cases hprintable

/-- A tag whose values do not begin with a space. A duration that is not known is `-1`. -/
structure Tag.Storable [Utf8] (ignored : TagType → Bool) (tag : Tag) : Prop where
  time : tag.time = -1 ∨ 0 ≤ tag.time
  type : ∀ item ∈ tag.items, ignored item.type = false
  produced : ∀ item ∈ tag.items, Produced item.value
  space : ∀ item ∈ tag.items, item.value.head? ≠ some ' '

/-- A song whose time of modification fits into 32 bits. -/
structure Song.Storable [Utf8] (ignored : TagType → Bool) (song : Song) : Prop where
  name : Plain song.uri
  tag : ∀ tag ∈ song.tag, tag.Storable ignored
  mtime_ge : -2 ^ 31 ≤ song.mtime.toInt
  mtime_lt : song.mtime.toInt < 2 ^ 31

def Tag.saves (tag : Tag) : Bool :=
  0 ≤ tag.time || tag.hasPlaylist || !tag.items.isEmpty

def Song.contents (song : Song) : Song :=
  { song with parent := none, tag := song.tag.filter Tag.saves }

namespace SimpleDb

/-! ### Fields -/

theorem field_eq (key : Text) {value : Text} (hkey : ':' ∉ key) (hne : key ≠ [])
    (hvalue : ∀ c ∈ value.head?, Text.isSpace c = false) :
    field (key ++ ": ".toList ++ value) = some (key, value) := by
  have hcut : Text.cutFirst ':' (key ++ ": ".toList ++ value) = some (key, ' ' :: value) := by
    rw [append_assoc]
    exact Text.cutFirst_append hkey
  have hchug : Text.chug (' ' :: value) = value := by
    rw [Text.chug, dropWhile_cons_of_pos rfl]
    cases value with
    | nil => rfl
    | cons c value =>
      exact dropWhile_cons_of_neg (by rw [hvalue c rfl]; exact Bool.false_ne_true)
  rw [field, hcut]
  dsimp only
  rw [if_neg hne, hchug]

theorem isSpace_toDigits (n : ℕ) (s : Text) :
    ∀ c ∈ (Nat.toDigits 10 n ++ s).head?, Text.isSpace c = false := by
  obtain ⟨d, ds, hds⟩ := exists_cons_of_ne_nil (Nat.toDigits_ne_nil)
  rw [hds]
  rintro c ⟨⟩
  have hdigit : d.isDigit = true :=
    Nat.isDigit_of_mem_toDigits (by decide) (by decide) (hds ▸ mem_cons_self)
  by_contra hspace
  simp only [Text.isSpace, Bool.not_eq_false, Bool.or_eq_true, decide_eq_true_eq] at hspace
  obtain (((rfl | rfl) | rfl) | rfl) | rfl := hspace <;> cases hdigit

theorem isSpace_intText (z : ℤ) : ∀ c ∈ (Text.intText z).head?, Text.isSpace c = false := by
  cases z with
  | ofNat n =>
    have h := isSpace_toDigits n []
    rwa [append_nil] at h
  | negSucc n =>
    rintro c ⟨⟩
    rfl

section Songs

theorem itemName_ok (type : TagType) : ':' ∉ type.itemName ∧ type.itemName ≠ [] := by
  cases type <;> decide

variable [Utf8] {config : DbConfig} {song song' : Song} {lines : List Text}

theorem songLoad_field (key : Text) {value : Text} (hkey : ':' ∉ key) (hne : key ≠ [])
    (hvalue : ∀ c ∈ value.head?, Text.isSpace c = false)
    (hset : songSet config song key value = some song') :
    songLoad config song ((key ++ ": ".toList ++ value) :: lines) =
      songLoad config song' lines := by
  have hend : key ++ ": ".toList ++ value ≠ songEnd := by
    intro heq
    have hcolon : ':' ∈ songEnd := heq ▸ by simp
    exact absurd hcolon (by decide)
  rw [songLoad, if_neg hend, field_eq key hkey hne hvalue]
  dsimp only [Option.bind_some]
  rw [hset]

/-! ### Tags -/

theorem songLoad_time {tag : Tag} : songLoad config song
      ((if 0 ≤ tag.time then [timeLabel ++ Text.intText tag.time.toInt] else []) ++ lines) =
      songLoad config (if 0 ≤ tag.time then
        { song with tag := some { song.tag.getD .new with time := tag.time } } else song)
        lines := by
  split
  · have hatoi : Text.atoi (Text.intText tag.time.toInt) = tag.time.toInt :=
      Text.atoi_intText tag.time.le_toInt tag.time.toInt_lt
    refine songLoad_field "Time".toList (by decide) (by decide) (isSpace_intText _) ?_
    rw [songSet, hatoi, Int32.ofInt_toInt]
    rfl
  · rfl

theorem songLoad_playlist {tag : Tag} :
    songLoad config song ((if tag.hasPlaylist then [playlistYes] else []) ++ lines) =
      songLoad config (if tag.hasPlaylist then
        { song with tag := some { song.tag.getD .new with hasPlaylist := true } } else song)
        lines := by
  split
  · exact songLoad_field "Playlist".toList (by decide) (by decide) (by rintro c ⟨⟩; rfl) rfl
  · rfl

theorem songLoad_items {items : List TagItem}
    (htype : ∀ item ∈ items, config.ignored item.type = false)
    (hproduced : ∀ item ∈ items, Produced item.value)
    (hspace : ∀ item ∈ items, item.value.head? ≠ some ' ') (song : Song) :
    songLoad config song
      (items.map (fun item => item.type.itemName ++ ": ".toList ++ item.value) ++ lines) =
      songLoad config (if items = [] then song else
        let tag := song.tag.getD .new
        { song with tag := some { tag with items := tag.items ++ items } }) lines := by
  induction items generalizing song with
  | nil => rfl
  | cons item items ih =>
    rw [forall_mem_cons] at htype hproduced hspace
    obtain ⟨hcolon, hne⟩ := itemName_ok item.type
    have hset : songSet config song item.type.itemName item.value =
        some { song with tag := some { song.tag.getD .new with
          items := (song.tag.getD .new).items ++ [item] } } := by
      rw [songSet, Tag.nameParse_itemName]
      dsimp only
      rw [Tag.addItem, htype.1, if_neg Bool.false_ne_true, if_neg hproduced.1.clean.2,
        hproduced.1.clean.1.fixTagValue_eq]
    rw [map_cons, cons_append, songLoad_field _ hcolon hne
      (hproduced.1.isSpace_head hspace.1) hset, ih htype.2 hproduced.2 hspace.2,
      if_neg (cons_ne_nil _ _)]
    split
    · next hnil => rw [hnil]
    · dsimp only [Option.getD_some]
      rw [append_assoc, singleton_append]

/-- **A tag is read back**, if there is something to save of it. -/
theorem songLoad_tagSave {tag : Tag} (h : tag.Storable config.ignored) (hsong : song.tag = none) :
    songLoad config song (tagSave tag ++ lines) =
      songLoad config { song with tag := (some tag).filter Tag.saves } lines := by
  rw [tagSave, append_assoc, append_assoc, songLoad_time, songLoad_playlist,
    songLoad_items h.type h.produced h.space]
  obtain ⟨time, hasPlaylist, items⟩ := tag
  obtain ⟨uri, parent, songTag, mtime, startMs, endMs⟩ := song
  obtain rfl : songTag = none := hsong
  have htime : ¬ 0 ≤ time → time = -1 := fun hneg => h.time.resolve_right hneg
  by_cases hpos : 0 ≤ time
  · cases hasPlaylist <;> cases items <;> simp [hpos, Tag.saves, Tag.new, Option.filter]
  · rw [htime hpos]
    cases hasPlaylist <;> cases items <;> simp [Tag.saves, Tag.new, Option.filter]

/-! ### Songs -/

theorem songLoad_rangeSave {stored : Song} (hstart : song.startMs = 0) (hend : song.endMs = 0) :
    songLoad config song (rangeSave stored ++ lines) =
      songLoad config { song with startMs := stored.startMs, endMs := stored.endMs } lines := by
  have hlt : ∀ x : UInt32, x.toNat ≤ Text.ulongMax := fun x =>
    x.toNat_lt.le.trans (by decide)
  have hread : ∀ rest, Text.strtoul (Nat.toDigits 10 stored.startMs.toNat ++ '-' :: rest) =
      (stored.startMs.toNat, '-' :: rest) := fun rest =>
    Text.strtoul_toDigits (hlt _) (by rintro ch ⟨⟩; rfl)
  have hset : ∀ rest, songSet config song "Range".toList
      (Nat.toDigits 10 stored.startMs.toNat ++ '-' :: rest) =
      some { song with startMs := stored.startMs, endMs := .ofNat (Text.strtoul rest).1 } := by
    intro rest
    have hnone : Tag.nameParse "Range".toList = none := by decide
    simp only [songSet, hnone]
    rw [if_neg (by decide), if_neg (by decide), if_neg (by decide), if_pos trivial, hread]
    exact congrArg (fun n => some (⟨song.uri, song.parent, song.tag, song.mtime, n, _⟩ : Song))
      UInt32.ofNat_toNat
  have hline : ∀ rest, songLoad config song
      ((rangeLabel ++ Nat.toDigits 10 stored.startMs.toNat ++ '-' :: rest) :: lines) =
      songLoad config ⟨song.uri, song.parent, song.tag, song.mtime, stored.startMs,
        .ofNat (Text.strtoul rest).1⟩ lines := by
    intro rest
    exact songLoad_field "Range".toList (by decide) (by decide) (isSpace_toDigits _ _) (hset rest)
  rw [rangeSave]
  split
  · have hend' : Text.strtoul (Nat.toDigits 10 stored.endMs.toNat) = (stored.endMs.toNat, []) := by
      have h : Text.strtoul (Nat.toDigits 10 stored.endMs.toNat ++ []) = _ :=
        Text.strtoul_toDigits (hlt stored.endMs) (by rintro ch ⟨⟩)
      rwa [append_nil] at h
    rw [singleton_append, hline, hend', UInt32.ofNat_toNat]
  · next hnoEnd =>
    have hzero : stored.endMs = 0 := UInt32.le_zero_iff.mp (UInt32.not_lt.mp hnoEnd)
    split
    · rw [singleton_append, hline, hzero]
      rfl
    · next hnoStart =>
      have hzero' : stored.startMs = 0 := UInt32.le_zero_iff.mp (UInt32.not_lt.mp hnoStart)
      obtain ⟨uri, parent, tag, mtime, startMs, endMs⟩ := song
      obtain rfl : startMs = 0 := hstart
      obtain rfl : endMs = 0 := hend
      rw [nil_append, hzero, hzero']

/-- **A song is read back.** -/
theorem songLoad_songSave {stored : Song} (h : stored.Storable config.ignored) (address : Address) :
    songLoad config (songNew stored.uri address) ((songSave stored).tail ++ lines) =
      (some { stored.contents with parent := some address }, lines) := by
  have htag : ∀ (song : Song) (lines : List Text), song.tag = none →
      songLoad config song ((stored.tag.map tagSave).getD [] ++ lines) =
        songLoad config { song with tag := stored.tag.filter Tag.saves } lines := by
    intro song lines hnone
    cases htag : stored.tag with
    | none =>
      obtain ⟨uri, parent, tag, mtime, startMs, endMs⟩ := song
      obtain rfl : tag = none := hnone
      rfl
    | some tag => exact songLoad_tagSave (h.tag tag htag) hnone
  have hmtime : Text.atoi (Text.intText stored.mtime.toInt) = stored.mtime.toInt :=
    Text.atoi_intText h.mtime_ge h.mtime_lt
  have hset : ∀ song : Song, songSet config song "mtime".toList
      (Text.intText stored.mtime.toInt) = some { song with mtime := stored.mtime } := by
    intro song
    have hnone : Tag.nameParse "mtime".toList = none := by decide
    simp only [songSet, hnone]
    rw [if_neg (by decide), if_neg (by decide), if_pos trivial, hmtime, Int64.ofInt_toInt]
  rw [songSave, tail_cons, append_assoc, append_assoc, songLoad_rangeSave rfl rfl,
    htag _ _ rfl, cons_append]
  refine (songLoad_field "mtime".toList (by decide) (by decide) (isSpace_intText _)
    (hset _)).trans ?_
  rfl

theorem plain_songSave {stored : Song} (h : stored.Storable config.ignored) :
    ∀ line ∈ songSave stored, Plain line := by
  have hrange : ∀ line ∈ rangeSave stored, Plain line := by
    rw [rangeSave]
    split
    · refine forall_mem_singleton.mpr ?_
      have hend : Plain ('-' :: Nat.toDigits 10 stored.endMs.toNat) :=
        Plain.append (s := ['-']) (by decide) (plain_toDigits _)
      exact (Plain.append (by decide) (plain_toDigits _)).append hend
    · split
      · refine forall_mem_singleton.mpr ?_
        exact (Plain.append (by decide) (plain_toDigits _)).append (by decide)
      · exact fun _ hline => nomatch hline
  have htag : ∀ line ∈ (stored.tag.map tagSave).getD [], Plain line := by
    cases htag : stored.tag with
    | none => exact fun _ hline => nomatch hline
    | some tag =>
      intro line hline
      rw [Option.map_some, Option.getD_some, tagSave, mem_append, mem_append, mem_map] at hline
      obtain (hline | hline) | ⟨item, hitem, rfl⟩ := hline
      · split at hline
        · rw [mem_singleton.mp hline]
          exact Plain.append (by decide) (plain_intText _)
        · cases hline
      · split at hline
        · rw [mem_singleton.mp hline]
          decide
        · cases hline
      · have hname : Plain (item.type.itemName ++ ": ".toList) := by
          cases item.type <;> decide
        refine hname.append (plain_of_printable ?_)
        exact ((h.tag tag htag).produced item hitem).clean.1.printable
  rw [songSave, forall_mem_cons, forall_mem_append, forall_mem_append]
  refine ⟨Plain.append (by decide) h.name, ⟨hrange, htag⟩, ?_⟩
  rw [forall_mem_cons, forall_mem_singleton]
  exact ⟨Plain.append (by decide) (plain_intText _), by decide⟩

end Songs

/-! ### Playlists -/

/-- **A playlist is read back.** -/
theorem playlistLoad_playlistSave (pm : PlaylistMetadata) (lines : List Text) :
    playlistLoad 0 ((playlistSave pm).tail ++ lines) = (some pm.mtime, lines) := by
  have hfield : field (mtimeLabel ++ Text.intText pm.mtime.toInt) =
      some ("mtime".toList, Text.intText pm.mtime.toInt) :=
    field_eq "mtime".toList (by decide) (by decide) (isSpace_intText _)
  have hend : mtimeLabel ++ Text.intText pm.mtime.toInt ≠ playlistEnd := by
    intro heq
    have hcolon : ':' ∈ playlistEnd := heq ▸ mem_append_left _ (by decide)
    exact absurd hcolon (by decide)
  rw [playlistSave, tail_cons, cons_append, playlistLoad, if_neg hend, hfield]
  dsimp only
  rw [if_pos rfl, Text.strtol_intText pm.mtime.le_toInt pm.mtime.toInt_lt, Int64.ofInt_toInt,
    singleton_append, playlistLoad, if_pos rfl]

theorem plain_playlistSave {pm : PlaylistMetadata} (h : Plain pm.name) :
    ∀ line ∈ playlistSave pm, Plain line := by
  rw [playlistSave, forall_mem_cons, forall_mem_cons, forall_mem_singleton]
  exact ⟨Plain.append (by decide) h, Plain.append (by decide) (plain_intText _), by decide⟩

theorem updateOrAdd_eq {name : Text} {mtime : Int64} {pv : List PlaylistMetadata}
    (h : ∀ pm ∈ pv, pm.name ≠ name) : updateOrAdd name mtime pv = pv ++ [⟨name, mtime⟩] := by
  induction pv with
  | nil => rfl
  | cons pm pv ih =>
    rw [forall_mem_cons] at h
    rw [updateOrAdd, if_neg h.1, ih h.2, cons_append]

end SimpleDb

end Mpd
