import Mpd.Command.Find

/-!
# What clients without permission can do

A client that has neither `PERMISSION_ADD` nor `PERMISSION_CONTROL` should not be able to change the
queue. The table keeps the handlers that change it from such a client, but for one: `findadd` asks
for `PERMISSION_READ` only. `keepsQueue_iff` says which lines change the queue: those with which
`findadd` finds a song, unless it then meets one that it does not look for, which is an assertion
failure where assertions are compiled in.
-/

namespace Mpd

open List

variable {σ : Type} {data : SongData σ} {R : Type} {p : Platform} {sys : System data R}

namespace Server

variable {s t : Server (World data R)} {argv : List Text}

def Keeps (s : Server (World data R))
    (x : Reply R data) : Prop :=
  x.Yields fun r => r.2.world.playlist = s.world.playlist

/-! ### Handlers that leave the playlist alone -/

theorem Keeps.trans {x : Reply R data}
    (h : t.Keeps x) (hplaylist : t.world.playlist = s.world.playlist) : s.Keeps x :=
  h.mono fun _ hr => hr.trans hplaylist

theorem keeps_ok {ret : CommandReturn} (h : t.world.playlist = s.world.playlist) :
    s.Keeps (.ok (ret, t)) :=
  .ok h

theorem fail_keeps {error : Ack} {text : Text} : s.Keeps (s.fail p error text) :=
  commandError_yields.bind fun _ ht => .ok (congrArg World.playlist ht)

theorem printError2_keeps {r : ℤ} : s.Keeps (s.printError2 p r) :=
  printError2_yields.mono fun _ hr => congrArg World.playlist hr

theorem assert_keeps {condition : Bool} {fault : CommandFault}
    {x : Reply R data} (h : s.Keeps x) :
    s.Keeps (do assert p condition fault; x) :=
  .after fun _ => h

theorem withCriteria_keeps
    {run : List LocateItem → Reply R data}
    (h : ∀ criteria, s.Keeps (run criteria)) : s.Keeps (s.withCriteria p argv run) := by
  rw [withCriteria]
  split
  · exact fail_keeps
  · exact fail_keeps
  · exact h _

theorem handleOutput_keeps {enable : Bool} : s.Keeps (s.handleOutput p sys argv enable) := by
  refine checkUnsigned_yields.bind fun r hr => ?_
  obtain ⟨_ | device, t⟩ := r
  · exact keeps_ok (congrArg World.playlist hr)
  · refine Keeps.trans ?_ (congrArg World.playlist hr)
    simp only
    split
    · exact fail_keeps
    · exact keeps_ok rfl

theorem handlePassword_keeps : s.Keeps (s.handlePassword p sys argv) := by
  rw [handlePassword]
  split
  · exact fail_keeps
  · exact keeps_ok rfl

theorem handleConfig_keeps : s.Keeps (s.handleConfig p sys) := by
  refine .branch fail_keeps ?_
  split <;> exact keeps_ok rfl

theorem handleSubscribe_keeps : s.Keeps (s.handleSubscribe p sys argv) := by
  refine assert_keeps ?_
  obtain ⟨result, rest⟩ := sys.subscribe (argv.getD 1 []) s.world.rest
  refine Keeps.trans ?_ rfl
  cases result with
  | ok => exact keeps_ok rfl
  | invalid => exact fail_keeps
  | already => exact fail_keeps
  | full => exact fail_keeps

theorem handleUnsubscribe_keeps : s.Keeps (s.handleUnsubscribe p sys argv) := by
  refine assert_keeps ?_
  cases sys.unsubscribe (argv.getD 1 []) s.world.rest with
  | none => exact fail_keeps
  | some rest => exact keeps_ok rfl

theorem lsinfoFile_keeps {path : Text} : s.Keeps (s.lsinfoFile p sys path) := by
  refine songFileLoad_yields.bind fun r hr => ?_
  obtain ⟨_ | song, t⟩ := r
  · obtain ⟨-, rfl⟩ := hr
    exact fail_keeps.trans rfl
  · obtain ⟨-, rfl⟩ := hr
    exact keeps_ok rfl

/-! ### Handlers that print -/

section Printing

variable (hsys : sys.LeavesPlaylist)
include hsys

theorem consult_yields {handler : Handler} :
    (s.consult sys handler argv).Yields fun r => r.2.world.playlist = s.world.playlist :=
  (hsys.call handler argv s.world).bind fun _ hr => .ok hr

theorem handlePrint_keeps {handler : Handler} : s.Keeps (s.handlePrint sys argv handler) :=
  (consult_yields hsys).bind fun _ hr => .ok hr

theorem handleReport_keeps {handler : Handler} : s.Keeps (s.handleReport p sys argv handler) :=
  (consult_yields hsys).bind fun _ hr => printError2_keeps.mono fun _ hr' => hr'.trans hr

theorem handleUrlhandlers_keeps : s.Keeps (s.handleUrlhandlers sys argv) := by
  rw [handleUrlhandlers]
  split
  · exact (handlePrint_keeps hsys).trans rfl
  · exact handlePrint_keeps hsys

theorem handleIdle_keeps : s.Keeps (s.handleIdle sys argv) :=
  (consult_yields hsys).bind fun _ hr => .ok hr

theorem handleChanges_keeps {handler : Handler} : s.Keeps (s.handleChanges p sys argv handler) := by
  refine checkUint32_yields.bind fun r hr => ?_
  obtain ⟨_ | version, t⟩ := r
  · exact keeps_ok (congrArg World.playlist hr)
  · exact (handlePrint_keeps hsys).trans (congrArg World.playlist hr)

theorem playlistPrintInfo_keeps {range : ℕ × ℕ} : s.Keeps (s.playlistPrintInfo p sys argv range) :=
  .branch printError2_keeps <| handlePrint_keeps hsys

theorem handlePlaylistinfo_keeps : s.Keeps (s.handlePlaylistinfo p sys argv) := by
  rw [handlePlaylistinfo.eq_def]
  split
  · refine checkRange_yields.bind fun r hr => ?_
    obtain ⟨_ | range, t⟩ := r
    · exact keeps_ok (congrArg World.playlist hr)
    · exact (playlistPrintInfo_keeps hsys).trans (congrArg World.playlist hr)
  · exact playlistPrintInfo_keeps hsys

theorem handlePlaylistid_keeps : s.Keeps (s.handlePlaylistid p sys argv) := by
  rw [handlePlaylistid.eq_def]
  split
  · refine checkUnsigned_yields.bind fun r hr => ?_
    obtain ⟨_ | id, t⟩ := r
    · exact keeps_ok (congrArg World.playlist hr)
    · exact .branch (printError2_keeps.trans (congrArg World.playlist hr)) <|
        (handlePrint_keeps hsys).trans (congrArg World.playlist hr)
  · exact handlePrint_keeps hsys

theorem handleList_keeps : s.Keeps (s.handleList p sys argv) := by
  rw [handleList]
  split
  · exact fail_keeps
  · exact fail_keeps
  · refine .branch (.branch fail_keeps <| handleReport_keeps hsys) ?_
    split
    · exact fail_keeps
    · exact handleReport_keeps hsys

theorem handleSticker_keeps : s.Keeps (s.handleSticker p sys argv) := by
  refine assert_keeps (.branch fail_keeps <| .branch ?_ <| fail_keeps)
  refine (hsys.stickerSong argv s.world).bind fun r hr => ?_
  obtain ⟨_ | error, text, world⟩ := r
  · exact keeps_ok hr
  · exact fail_keeps.trans hr

theorem handleLsinfo_keeps : s.Keeps (s.handleLsinfo p sys argv) := by
  rw [handleLsinfo]
  split
  · exact .branch printError2_keeps <| lsinfoFile_keeps
  · exact handleReport_keeps hsys

end Printing

/-! ### The handlers that need no permission -/

def findaddCommand : Command :=
  command "findadd" permissionRead 2 (-1) .findadd

theorem findaddCommand_mem (enableSticker : Bool) : findaddCommand ∈ commands enableSticker := by
  cases enableSticker <;> decide

def readers : List Handler :=
  [.channels, .close, .commands, .config, .count, .currentsong, .decoders, .devices, .disableoutput,
    .enableoutput, .find, .idle, .kill, .list, .listall, .listallinfo, .listplaylist,
    .listplaylistinfo, .listplaylists, .lsinfo, .notCommands, .password, .ping, .playlist,
    .playlistfind, .playlistid, .playlistinfo, .playlistsearch, .plchanges, .plchangesposid,
    .readMessages, .replayGainStatus, .search, .stats, .status, .sticker, .subscribe, .tagtypes,
    .unsubscribe, .urlhandlers]

/-- The client may neither add songs nor control playback. -/
def MayOnlyRead (s : Server (World data R)) : Prop :=
  s.permission &&& (permissionAdd ||| permissionControl) = 0
  deriving Decidable

theorem handler_of_permits {cmd : Command} (hread : s.MayOnlyRead)
    (hmem : cmd ∈ commands p.enableSticker) (hpermit : cmd.Permits s.permission) :
    cmd.handler ∈ readers ∨ cmd = findaddCommand := by
  have hnone : cmd.permission &&& (permissionAdd ||| permissionControl) = 0 := by
    rw [hpermit, Nat.and_assoc, Nat.and_comm cmd.permission, ← Nat.and_assoc,
      show s.permission &&& (permissionAdd ||| permissionControl) = 0 from hread, Nat.zero_and]
  have htable : ∀ enableSticker, ∀ cmd ∈ commands enableSticker,
      cmd.permission &&& (permissionAdd ||| permissionControl) = 0 →
        cmd.handler ∈ readers ∨ cmd = findaddCommand := by
    decide
  exact htable _ cmd hmem hnone

section FindAdd

theorem two_le_length_of_parse {args : List Text} {criteria : List LocateItem}
    (h : locateItemListParse args = some criteria) (hne : criteria ≠ []) : 2 ≤ args.length := by
  match args, h with
  | [], h => exact absurd (Option.some.inj h).symm hne
  | [_], h => cases h
  | _ :: _ :: args, _ => exact Nat.le_add_left 2 args.length

variable [Qsort] [DecidableEq σ] {criteria : List LocateItem}

theorem findAddIn_eq {db : Database data.uri} (h : s.world.database = some db) :
    s.findAddIn [] criteria = visitSongs (findAddSong criteria) db.root.allSongs s :=
  dbWalk_eq h rfl _

/-- The first song is added: it matches, and there is room for it. -/
def AddsFirst (s : Server (World data R)) (criteria : List LocateItem) (songs : List σ) : Prop :=
  (∃ song ∈ songs.head?, locateSongMatch data song criteria = true) ∧
    s.world.playlist.queue.isFull = false

/-- **What the walk meets**: a song that does not match, before the queue is full. -/
def MeetsOther (s : Server (World data R)) (criteria : List LocateItem) (songs : List σ) : Prop :=
  ∃ found song rest, songs = found ++ song :: rest ∧
    (∀ song ∈ found, locateSongMatch data song criteria = true) ∧
    locateSongMatch data song criteria = false ∧
    s.world.playlist.queue.length + found.length ≤ s.world.playlist.queue.maxLength

section Songs

variable {song : σ} {songs : List σ}

omit [Qsort] [DecidableEq σ] in
theorem meetsOther_cons_of_match (hmatch : locateSongMatch data song criteria = true) :
    s.MeetsOther criteria (song :: songs) ↔ ∃ found other rest, songs = found ++ other :: rest ∧
      (∀ song ∈ found, locateSongMatch data song criteria = true) ∧
      locateSongMatch data other criteria = false ∧
      s.world.playlist.queue.length + (found.length + 1) ≤ s.world.playlist.queue.maxLength := by
  constructor
  · rintro ⟨_ | ⟨x, found⟩, other, rest, hsongs, hfound, hother, hroom⟩
    · obtain ⟨rfl, -⟩ := cons.inj hsongs
      rw [hmatch] at hother
      cases hother
    · exact ⟨found, other, rest, (cons.inj hsongs).2, (forall_mem_cons.mp hfound).2, hother, hroom⟩
  · rintro ⟨found, other, rest, rfl, hfound, hother, hroom⟩
    exact ⟨song :: found, other, rest, rfl, forall_mem_cons.mpr ⟨hmatch, hfound⟩, hother, hroom⟩

/-- **The walk** adds songs, and returns a positive number where it meets a song that does not
match. -/
theorem visitSongs_succeeds (h : s.world.playlist.Inv) :
    (visitSongs (findAddSong criteria) songs s).Succeeds fun r =>
      s.world.playlist.queue.length ≤ r.2.world.playlist.queue.length ∧
      (s.AddsFirst criteria songs →
        s.world.playlist.queue.length < r.2.world.playlist.queue.length) ∧
      r.2.currentCommand = s.currentCommand ∧ (0 < r.1 ↔ s.MeetsOther criteria songs) := by
  induction songs generalizing s with
  | nil =>
    refine .ok ⟨le_rfl, ?_, rfl, iff_of_false (lt_irrefl 0) ?_⟩
    · rintro ⟨⟨song, hsong, -⟩, -⟩
      cases hsong
    rintro ⟨found, song, rest, hsongs, -⟩
    exact append_ne_nil_of_right_ne_nil found (cons_ne_nil song rest) hsongs.symm
  | cons song songs ih =>
    rw [visitSongs, findAddSong]
    cases hmatch : locateSongMatch data song criteria with
    | false =>
      refine .ok ⟨le_rfl, ?_, rfl, iff_of_true Int.one_pos ⟨[], song, songs, rfl, ?_, hmatch, ?_⟩⟩
      · rintro ⟨⟨song', hmem, hsong⟩, -⟩
        rw [← Option.some.inj hmem, hmatch] at hsong
        cases hsong
      · exact fun _ hmem => absurd hmem not_mem_nil
      · exact h.queue.length_le
    | true =>
      rw [Bool.not_true, if_neg Bool.false_ne_true, meetsOther_cons_of_match hmatch]
      cases hfull : s.world.playlist.queue.isFull with
      | true =>
        have hlen : s.world.playlist.queue.maxLength ≤ s.world.playlist.queue.length :=
          of_decide_eq_true hfull
        rw [onPlaylist, Playlist.appendSong, if_pos hfull]
        refine .ok ⟨le_rfl, fun hadds => ?_, rfl,
          iff_of_false (by decide : ¬ 0 < Status.tooLarge.code) ?_⟩
        · rw [hadds.2] at hfull
          cases hfull
        rintro ⟨found, other, rest, -, -, -, hroom⟩
        omega
      | false =>
        have hroom : s.world.playlist.queue.length < s.world.playlist.queue.maxLength :=
          not_le.mp (of_decide_eq_false hfull)
        obtain ⟨⟨pl, _⟩, hr, rfl, hinv, hsongs, hmax⟩ := h.appendSong_songs hroom song
        dsimp only at hinv hsongs hmax
        have hlen : pl.queue.length = s.world.playlist.queue.length + 1 := by
          simpa [Queue.songs, Queue.length_contents] using congrArg length hsongs
        rw [onPlaylist, hr]
        refine (ih (s := s.withPlaylist pl) hinv).mono ?_
        rintro r ⟨hgrown, -, hcommand, hret⟩
        have hlt : s.world.playlist.queue.length < r.2.world.playlist.queue.length :=
          lt_of_lt_of_le (by omega : _ < pl.queue.length) hgrown
        refine ⟨hlt.le, fun _ => hlt, hcommand, hret.trans ?_⟩
        simp only [MeetsOther, withPlaylist, hlen, hmax, Nat.add_assoc, Nat.add_comm 1]

end Songs

/-- A `findadd` with these criteria changes the queue, if no assertion fails. -/
def FindsSong (s : Server (World data R)) (criteria : List LocateItem) : Prop :=
  ∃ db, s.world.database = some db ∧ s.AddsFirst criteria db.root.allSongs

/-- An assertion fails: `print_error2` asserts that the number it gets is not positive. -/
def Asserts (p : Platform) (s : Server (World data R)) (criteria : List LocateItem) : Prop :=
  p.assertions = true ∧ ∃ db, s.world.database = some db ∧ s.MeetsOther criteria db.root.allSongs

theorem findAddIn_keeps (h : ¬ s.FindsSong criteria) :
    (s.findAddIn [] criteria).Yields fun r => r.2.world.playlist = s.world.playlist := by
  cases hdb : s.world.database with
  | none =>
    rw [findAddIn, dbWalk, hdb]
    exact .ok rfl
  | some db =>
    rw [findAddIn_eq hdb]
    cases hsongs : db.root.allSongs with
    | nil => exact .ok rfl
    | cons song songs =>
      rw [visitSongs, findAddSong]
      cases hmatch : locateSongMatch data song criteria with
      | false => exact .ok rfl
      | true =>
        have hfull : s.world.playlist.queue.isFull = true := by
          by_contra hroom
          refine h ⟨db, hdb, ⟨song, ?_, hmatch⟩, Bool.eq_false_of_not_eq_true hroom⟩
          rw [hsongs]
          rfl
        rw [Bool.not_true, if_neg Bool.false_ne_true, onPlaylist, Playlist.appendSong,
          if_pos hfull]
        exact .ok rfl

section Findadd

variable {name : Text} {args : List Text}

theorem handleFindadd_keeps (h : ∀ criteria, locateItemListParse args = some criteria →
      criteria ≠ [] → ¬ s.FindsSong criteria) : s.Keeps (s.handleFindadd p (name :: args)) := by
  rw [handleFindadd, withCriteria, tail_cons]
  split
  · exact fail_keeps
  · exact fail_keeps
  · next criteria hne hparse =>
    refine (findAddIn_keeps (h criteria hparse hne)).bind fun r hr => ?_
    exact printError2_keeps.trans hr

variable (hparse : locateItemListParse args = some criteria)
  (hne : criteria ≠ [])
include hparse hne

theorem handleFindadd_eq : s.handleFindadd p (name :: args) =
    (do
      let (ret, s) ← s.findAddIn [] criteria
      s.printError2 p ret) := by
  rw [handleFindadd, withCriteria, tail_cons, hparse]
  cases criteria with
  | nil => exact absurd rfl hne
  | cons item items => rfl

theorem handleFindadd_grows (h : s.world.playlist.Inv) (hfinds : s.FindsSong criteria)
    (hasserts : ¬ s.Asserts p criteria) {command : Text}
    (hcommand : s.currentCommand = some command) :
    (s.handleFindadd p (name :: args)).Succeeds fun r =>
      s.world.playlist.queue.length < r.2.world.playlist.queue.length := by
  obtain ⟨db, hdb, hfirst⟩ := hfinds
  rw [handleFindadd_eq hparse hne, findAddIn_eq hdb]
  refine (visitSongs_succeeds h).bind ?_
  rintro ⟨ret, t⟩ ⟨-, hgrown, hkept, hret⟩
  have hassert : ¬ (p.assertions = true ∧ 0 < ret) :=
    fun hpos => hasserts ⟨hpos.1, db, hdb, hret.mp hpos.2⟩
  refine (printError2_succeeds hassert (hkept.trans hcommand)).mono fun r hr => ?_
  exact hr ▸ hgrown hfirst

theorem handleFindadd_of_asserts (h : s.world.playlist.Inv) (hasserts : s.Asserts p criteria) :
    s.handleFindadd p (name :: args) = .error .positiveError := by
  obtain ⟨hassert, db, hdb, hmeets⟩ := hasserts
  rw [handleFindadd_eq hparse hne, findAddIn_eq hdb]
  have hwalk : (visitSongs (findAddSong criteria) db.root.allSongs s).Succeeds _ :=
    visitSongs_succeeds h
  obtain ⟨r, hr, -, -, -, hret⟩ := hwalk
  rw [hr, Except.ok_bind]
  exact if_pos ⟨hassert, hret.mpr hmeets⟩

end Findadd

variable [SongRef σ]

theorem handlers_keeps (hsys : sys.LeavesPlaylist) :
    ∀ handler ∈ readers, s.Keeps (handlers p sys handler s argv) := by
  have hprint : ∀ {handler}, s.Keeps (s.handlePrint sys argv handler) := handlePrint_keeps hsys
  have hreport : ∀ {handler}, s.Keeps (s.handleReport p sys argv handler) :=
    handleReport_keeps hsys
  simp only [readers, forall_mem_cons, not_mem_nil, false_imp_iff, implies_true, and_true]
  exact ⟨assert_keeps hprint, keeps_ok rfl, keeps_ok rfl, handleConfig_keeps,
    withCriteria_keeps fun _ => hreport, hprint, hprint, hprint, handleOutput_keeps,
    handleOutput_keeps, withCriteria_keeps fun _ => hreport, handleIdle_keeps hsys, keeps_ok rfl,
    handleList_keeps hsys, hreport, hreport, hreport, hreport, hreport, handleLsinfo_keeps hsys,
    keeps_ok rfl, handlePassword_keeps, keeps_ok rfl, hprint, withCriteria_keeps fun _ => hprint,
    handlePlaylistid_keeps hsys, handlePlaylistinfo_keeps hsys,
    withCriteria_keeps fun _ => hprint, handleChanges_keeps hsys, handleChanges_keeps hsys,
    assert_keeps hprint, hprint, withCriteria_keeps fun _ => hreport, hprint, hprint,
    handleSticker_keeps hsys, handleSubscribe_keeps, hprint, handleUnsubscribe_keeps,
    handleUrlhandlers_keeps hsys⟩

/-! ### What `findadd` does -/

/-- **A line that changes the queue**: a `findadd` that the client may use, whose criteria can be
read, and that finds a song without meeting an assertion. -/
def ChangesQueue (p : Platform) (s : Server (World data R)) (line : Text) : Prop :=
  permissionRead = s.permission &&& permissionRead ∧
    ∃ args criteria, Tokenizer.WellFormed line "findadd".toList args ∧
      args.length < commandArgvMax - 1 ∧ locateItemListParse args = some criteria ∧ criteria ≠ [] ∧
      s.FindsSong criteria ∧ ¬ s.Asserts p criteria

/-- **Which lines change the queue**: for a client that may only read, those with which `findadd`
finds a song, if no assertion fails. -/
theorem keepsQueue_iff (p : Platform) (hsys : sys.LeavesPlaylist) (hpl : s.world.playlist.Inv)
    (num : ℕ) (line : Text) (hread : s.MayOnlyRead) :
    ((s.commandProcess p (handlers p sys) num line).Yields fun r =>
      r.2.world.playlist.queue.contents = s.world.playlist.queue.contents) ↔
    ¬ s.ChangesQueue p line := by
  constructor
  · rintro hkeeps ⟨hpermit, args, criteria, hline, hlen, hparse, hne, hfinds, hasserts⟩
    have haccept : findaddCommand.Accepts args.length :=
      .inr ⟨Int.ofNat_le.mpr (two_le_length_of_parse hparse hne), .inr rfl⟩
    have hgrows : (s.commandProcess p (handlers p sys) num line).Succeeds fun r =>
        s.world.playlist.queue.length < r.2.world.playlist.queue.length := by
      have hinvoke : s.commandProcess p (handlers p sys) num line = _ :=
        (commandProcess_of_wellFormed hline hlen).trans
          (invoke_of_accepts (findaddCommand_mem p.enableSticker) hpermit haccept)
      rw [hinvoke]
      refine .bind ?_ fun r hr => .ok hr
      exact handleFindadd_grows hparse hne hpl hfinds hasserts rfl
    obtain ⟨r, hr, hlt⟩ := hgrows
    have hcontents := congrArg length (hkeeps r hr)
    rw [Queue.length_contents, Queue.length_contents] at hcontents
    exact absurd hcontents hlt.ne'
  · intro hnot r hr
    obtain ⟨word, args, hline, hlen, cmd, hmem, rfl, hpermit, haccept, t, hrun, htail⟩ | hworld :=
      commandProcess_yields r hr
    · have hkept : t.world.playlist = s.world.playlist := by
        obtain hreader | rfl := handler_of_permits hread hmem hpermit
        · exact handlers_keeps hsys cmd.handler hreader _ hrun
        · refine handleFindadd_keeps (fun criteria hparse hne hfinds => ?_) _ hrun
          -- the handler has returned, so that no assertion has failed
          refine hnot
            ⟨hpermit, args, criteria, hline, hlen, hparse, hne, hfinds, fun hasserts => ?_⟩
          have hfault := hrun.symm.trans (handleFindadd_of_asserts hparse hne hpl hasserts)
          cases hfault
      rw [htail]
      exact congrArg (fun pl : Playlist σ => pl.queue.contents) hkept
    · rw [hworld]

end FindAdd

theorem keepsQueue_clear :
    ((stranger permissionRead).commandProcess ⟨true, "(null)".toList, [], false⟩
        (handlers ⟨true, "(null)".toList, [], false⟩ quietSystem) 0 "clear".toList).Yields fun r =>
      r.2.world.playlist.queue.contents =
        (stranger permissionRead).world.playlist.queue.contents := by
  refine (keepsQueue_iff _ leavesPlaylist_quietSystem (Playlist.inv_numbered _ _) 0 _
    (by decide)).mpr ?_
  rintro ⟨-, args, criteria, -, -, -, -, ⟨db, hdb, -⟩, -⟩
  cases hdb

theorem not_keepsQueue_findadd :
    let p : Platform := ⟨false, "(null)".toList, [], false⟩
    let s := atTwoSongs
    s.MayOnlyRead ∧
      ¬ (s.commandProcess p (handlers p quietSystem) 0 "findadd file 7".toList).Yields fun r =>
        r.2.world.playlist.queue.contents = s.world.playlist.queue.contents := by
  intro p s
  have hrun : (s.commandProcess p (handlers p quietSystem) 0 "findadd file 7".toList).Succeeds
      fun r => r.2.world.playlist.queue.length = 1 := by
    decide +kernel
  refine ⟨by decide, fun h => ?_⟩
  obtain ⟨r, hr, hlength⟩ := hrun
  have hcontents := congrArg length (h r hr)
  rw [Queue.length_contents, hlength] at hcontents
  cases hcontents

end Server

end Mpd
