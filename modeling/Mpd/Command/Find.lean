import Mpd.Command.Handlers
import Mpd.Queue.Contents

/-!
# `find` and `findadd`

`findSongsIn` of `db_print.c` prints the songs that match some criteria, and `findAddIn` of
`dbUtils.c` is to append the same songs to the queue. Both walk the database with a visitor that
returns an error number. The visitor of `findAddIn` returns `true` for a song that does not match,
which is not `MPD_SUCCESS`, and so ends the walk. The two agree if and only if there is no such song
(`addsWhatFindPrints_iff`).
-/

namespace Mpd

open List

namespace Queue

variable {σ : Type} {q q' : Queue σ}

def songs (q : Queue σ) : List σ :=
  q.contents.map QueueItem.song

theorem songs_appended (song : σ) (priority id : ℕ) :
    (q.appended song priority id).songs = q.songs ++ [song] := by
  rw [songs, songs, contents_appended, map_append]
  rfl

end Queue

namespace Playlist

variable {σ : Type} {pl : Playlist σ} [Qsort] [DecidableEq σ]

theorem appendSong_status (hfull : pl.queue.isFull = false) (song : σ) :
    (pl.appendSong song).Yields fun r => r.2 = .success := by
  rw [appendSong, hfull, if_neg Bool.false_ne_true]
  refine .after fun queued => .after fun r => ?_
  exact .after fun pl' => .ok rfl

/-- **A song is appended** to a queue with room for it. -/
theorem Inv.appendSong_songs (h : pl.Inv) (hroom : pl.queue.length < pl.queue.maxLength)
    (song : σ) :
    (pl.appendSong song).Succeeds fun r => r.2 = .success ∧ r.1.Inv ∧
      r.1.queue.songs = pl.queue.songs ++ [song] ∧ r.1.queue.maxLength = pl.queue.maxLength := by
  have hfull : pl.queue.isFull = false := decide_eq_false hroom.not_ge
  refine ((h.appendSong_succeeds song).and_yields (appendSong_status hfull song)).mono ?_
  rintro r ⟨⟨hinv, hkept | ⟨-, id, hkept⟩⟩, hstatus⟩
  · rw [hkept.1] at hfull
    cases hfull
  · have hsame := pl.withSong_sameSongs song id
    refine ⟨hstatus, hinv, ?_, ?_⟩
    · rw [Queue.songs, hkept.songs.contents_eq]
      refine (congrArg (map _) (Queue.incrementVersion_contents _)).trans ?_
      rw [hsame.contents_eq]
      exact Queue.songs_appended song 0 id
    · rw [hkept.songs]
      refine (Queue.maxLength_eq (Queue.incrementVersion_settings _)).trans ?_
      rw [hsame]
      rfl

end Playlist

/-! ### What is visited -/

namespace Database

variable {σ : Type} {uri : σ → Text}

def visited (db : Database uri) (name : Text) : Option (List σ) :=
  match db.root.lookupDirectory name with
  | some directory => some directory.allSongs
  | none => (db.root.lookupSong name).map fun song => [song]

end Database

namespace Server

variable {σ : Type} {data : SongData σ} {R : Type} {s : Server (World data R)}
  {db : Database data.uri} {name : Text} {criteria : List LocateItem} {songs : List σ}

theorem dbWalk_eq (hdb : s.world.database = some db) (hvisited : db.visited name = some songs)
    (visit : σ → Server (World data R) → Handled ℤ R data) :
    s.dbWalk name visit = visitSongs visit songs s := by
  rw [Database.visited] at hvisited
  rw [dbWalk, hdb]
  dsimp only
  split
  · next directory hdirectory =>
    rw [hdirectory] at hvisited
    cases hvisited
    exact directoryWalk_eq visit directory s
  · next hnone =>
    rw [hnone] at hvisited
    obtain ⟨song, hsong, rfl⟩ := Option.map_eq_some_iff.mp hvisited
    rw [hsong, visitSongs]
    cases hvisit : visit song s with
    | error fault => exact hvisit
    | ok r =>
      obtain ⟨ret, s'⟩ := r
      refine hvisit.trans ?_
      by_cases hret : ret = 0
      · rw [hret]
        rfl
      · exact (if_pos hret).symm

/-! ### Printing -/

def findVisitorSong (sys : System data R) (criteria : List LocateItem) (song : σ)
    (s : Server (World data R)) : Handled ℤ R data :=
  .ok (0, if locateSongMatch data song criteria then s.write (sys.songInfo song) else s)

def findSongsIn (sys : System data R) (s : Server (World data R)) (name : Text)
    (criteria : List LocateItem) : Handled ℤ R data :=
  s.dbWalk name (findVisitorSong sys criteria)

def printSongs (sys : System data R) (s : Server (World data R)) (songs : List σ) :
    Server (World data R) :=
  songs.foldl (fun s song => s.write (sys.songInfo song)) s

theorem visitSongs_findVisitorSong (sys : System data R) (s : Server (World data R)) :
    visitSongs (findVisitorSong sys criteria) songs s =
      .ok (0, s.printSongs sys (songs.filter fun song => locateSongMatch data song criteria)) := by
  induction songs generalizing s with
  | nil => rfl
  | cons song songs ih =>
    rw [visitSongs, findVisitorSong, Except.ok_bind]
    cases hmatch : locateSongMatch data song criteria with
    | false =>
      rw [filter_cons_of_neg (by rw [hmatch]; exact Bool.false_ne_true)]
      exact ih s
    | true =>
      rw [filter_cons_of_pos (by rw [hmatch])]
      exact ih (s.write (sys.songInfo song))

/-! ### Appending -/

section FindAdd

variable [Qsort] [DecidableEq σ]

/-- **`findadd` appends what `find` prints.** -/
def AddsWhatFindPrints (s : Server (World data R)) (name : Text) (criteria : List LocateItem) :
    Prop :=
  ∃ songs, (∀ sys, s.findSongsIn sys name criteria = .ok (0, s.printSongs sys songs)) ∧
    (s.findAddIn name criteria).Succeeds fun r =>
      r.1 = 0 ∧ r.2.world.playlist.queue.songs = s.world.playlist.queue.songs ++ songs

theorem match_of_visitSongs : (visitSongs (findAddSong criteria) songs s).Yields fun r =>
      r.1 = 0 → ∀ song ∈ songs, locateSongMatch data song criteria = true := by
  induction songs generalizing s with
  | nil => exact .ok fun _ song hsong => nomatch hsong
  | cons song songs ih =>
    rw [visitSongs, findAddSong]
    cases hmatch : locateSongMatch data song criteria with
    | false =>
      refine .ok fun hret => ?_
      cases hret
    | true =>
      refine .after fun r => .ite (fun hret => ?_) (fun _ => ?_)
      · exact .ok fun hzero => absurd hzero hret
      · exact ih.mono fun r' hr' hzero => forall_mem_cons.mpr ⟨hmatch, hr' hzero⟩

theorem visitSongs_findAddSong (h : s.world.playlist.Inv)
    (hroom : s.world.playlist.queue.length + songs.length ≤ s.world.playlist.queue.maxLength)
    (hmatch : ∀ song ∈ songs, locateSongMatch data song criteria = true) :
    (visitSongs (findAddSong criteria) songs s).Succeeds fun r =>
      r.1 = 0 ∧ r.2.world.playlist.queue.songs = s.world.playlist.queue.songs ++ songs := by
  induction songs generalizing s with
  | nil => exact .ok ⟨rfl, (append_nil _).symm⟩
  | cons song songs ih =>
    rw [length_cons] at hroom
    rw [forall_mem_cons] at hmatch
    rw [visitSongs, findAddSong, hmatch.1, Bool.not_true, if_neg Bool.false_ne_true]
    obtain ⟨r, hr, hstatus, hinv, hsongs, hmax⟩ :=
      h.appendSong_songs (show s.world.playlist.queue.length < _ by omega) song
    have hlength : r.1.queue.length = s.world.playlist.queue.length + 1 := by
      have hlen := congrArg length hsongs
      simpa only [Queue.songs, length_append, length_map, Queue.length_contents,
        length_singleton] using hlen
    have honce : s.onPlaylist (Playlist.appendSong · song) = .ok (0, s.withPlaylist r.1) := by
      rw [onPlaylist, hr]
      dsimp only at hstatus ⊢
      rw [hstatus]
      rfl
    rw [honce]
    have hroom' : r.1.queue.length + songs.length ≤ r.1.queue.maxLength := by omega
    refine (ih hinv hroom' hmatch.2).mono fun r' hr' => ⟨hr'.1, ?_⟩
    rw [hr'.2, withPlaylist, hsongs, append_assoc, singleton_append]

/-- **`findadd` and `find` agree** if and only if every song that is visited matches. -/
theorem addsWhatFindPrints_iff (h : s.world.playlist.Inv) (hdb : s.world.database = some db)
    (hvisited : db.visited name = some songs)
    (hroom : s.world.playlist.queue.length +
        (songs.filter fun song => locateSongMatch data song criteria).length ≤
      s.world.playlist.queue.maxLength) :
    s.AddsWhatFindPrints name criteria ↔
      ∀ song ∈ songs, locateSongMatch data song criteria = true := by
  have hprint : ∀ sys, s.findSongsIn sys name criteria = .ok (0, s.printSongs sys
      (songs.filter fun song => locateSongMatch data song criteria)) := fun sys =>
    (dbWalk_eq hdb hvisited _).trans (visitSongs_findVisitorSong sys s)
  have hadd : s.findAddIn name criteria = visitSongs (findAddSong criteria) songs s :=
    dbWalk_eq hdb hvisited _
  constructor
  · rintro ⟨_, -, r, hr, hret, -⟩
    rw [hadd] at hr
    exact match_of_visitSongs r hr hret
  · intro hmatch
    rw [filter_eq_self.mpr hmatch] at hprint hroom
    refine ⟨songs, hprint, ?_⟩
    rw [hadd]
    exact visitSongs_findAddSong h hroom hmatch

end FindAdd

def twoSongs : Database plainData.uri where
  root := .mk [] [("7".toList, 7), ("8".toList, 8)] []
  uri_eq := by
    intro path d hat
    have hroot : path = none ∧ d = .mk [] [("7".toList, 7), ("8".toList, 8)] [] := by
      induction hat with
      | root => exact ⟨rfl, rfl⟩
      | child _ hchild ih =>
        obtain ⟨-, rfl⟩ := ih
        cases hchild
    obtain ⟨rfl, rfl⟩ := hroot
    decide

def atTwoSongs : Server (World plainData Unit) :=
  let s := stranger permissionRead
  { s with world := { s.world with database := some twoSongs } }

theorem addsWhatFindPrints_two_songs :
    atTwoSongs.AddsWhatFindPrints [] [⟨.tag .artist, "a".toList⟩] := by
  have hvisited : twoSongs.visited [] = some [7, 8] := by decide
  exact (addsWhatFindPrints_iff (Playlist.inv_numbered _ _) rfl hvisited (by decide)).mpr
    (by decide)

theorem not_addsWhatFindPrints_second :
    (∀ sys, atTwoSongs.findSongsIn sys [] [⟨.file, "8".toList⟩] =
      .ok (0, atTwoSongs.printSongs sys [8])) ∧
    ((atTwoSongs.findAddIn [] [⟨.file, "8".toList⟩]).Succeeds fun r =>
      r.1 = 1 ∧ r.2.world.playlist.queue.songs = []) ∧
    ¬ atTwoSongs.AddsWhatFindPrints [] [⟨.file, "8".toList⟩] := by
  have hadd : (atTwoSongs.findAddIn [] [⟨.file, "8".toList⟩]).Succeeds fun r =>
      r.1 = 1 ∧ r.2.world.playlist.queue.songs = [] := by
    decide
  refine ⟨fun sys => rfl, hadd, ?_⟩
  rintro ⟨_, -, hsame⟩
  obtain ⟨r, -, hzero, hone, -⟩ := hsame.and_yields hadd.yields
  rw [hzero.1] at hone
  cases hone

end Server

end Mpd
