import Mpd.Playlist.Contents
import Mpd.Command.Files

/-!
# The command `addid`: what is left of a failed one

With a position, `addid` adds a song to the queue, then reads the position, and then moves the
song. If the move fails, the song is deleted again; if the position cannot be read, it is not. So a
failed command leaves the queue as it was exactly if the position is a number, or no song was added
in the first place.
-/

namespace Mpd

open List

namespace Server

/-! ### Adding the song -/

variable {σ : Type} {data : SongData σ} {R : Type} {p : Platform}

def addidSong (p : Platform) (sys : System data R) (s : Server (World data R)) (uri : Text) :
    Option σ :=
  match filePath uri with
  | some path =>
    if s.clientAllowFile sys path = 0 ∨ p.assertions ∧ (path.head? = some '/' &&
        !uriHasScheme path && !decide ('\n' ∈ path)) = false then none
    else sys.loadFile path
  | none =>
    if uriHasScheme uri && !sys.supportedScheme uri then none else s.songByUri sys uri

/-- The song is appended before it is moved. -/
def Adds (p : Platform) (sys : System data R) (s : Server (World data R)) (uri : Text) : Prop :=
  s.world.playlist.queue.isFull = false ∧ (s.addidSong p sys uri).isSome

section Handler

variable [Qsort] [DecidableEq σ] [SongRef σ] {sys : System data R} {s t : Server (World data R)}
  {argv : List Text} {uri target : Text} {song : σ} {id : ℕ}

omit [SongRef σ] in
theorem onPlaylist_appendSong (h : s.world.playlist.Inv)
    (hfull : s.world.playlist.queue.isFull = false) (song : σ) :
    ∃ pl, s.onPlaylist (Playlist.appendSong · song) = .ok (0, s.withPlaylist pl) ∧ pl.Inv ∧
      pl.queue.contents = s.world.playlist.queue.contents ++ [⟨song, s.nextId song, 0, 0⟩] := by
  obtain ⟨q, id, happend, ⟨pl, status⟩, hrun, hstatus, hinv, hcontents⟩ :=
    h.appendSong_appends hfull song
  obtain rfl : status = .success := hstatus
  refine ⟨pl, ?_, hinv, ?_⟩
  · rw [onPlaylist, hrun]
    rfl
  · rw [nextId, happend]
    exact hcontents

omit [SongRef σ] in
theorem onPlaylist_appendSong_full (hfull : s.world.playlist.queue.isFull = true) (song : σ) :
    s.onPlaylist (Playlist.appendSong · song) = .ok (Status.tooLarge.code, s) := by
  rw [onPlaylist, Playlist.appendSong, if_pos hfull]
  rfl

omit [Qsort] [DecidableEq σ] [SongRef σ] in
theorem printError2_playlist_yields {r : ℤ} :
    (s.printError2 p r).Yields fun r => r.2.world.playlist = s.world.playlist :=
  printError2_yields.mono fun _ h => congrArg World.playlist h

variable (argv) in
/-- **Nothing is added.** -/
theorem handleAddid_of_not_adds (h : ¬ s.Adds p sys (argv.getD 1 [])) :
    (s.handleAddid p sys argv).Yields fun r => r.2.world.playlist = s.world.playlist := by
  have hfull : ∀ song, s.addidSong p sys (argv.getD 1 []) = some song →
      s.world.playlist.queue.isFull = true := by
    intro song hsong
    by_contra hfull
    exact h ⟨Bool.not_eq_true _ ▸ hfull, by rw [hsong]; rfl⟩
  rw [handleAddid]
  rw [addidSong] at hfull
  cases hfile : filePath (argv.getD 1 []) with
  | some path =>
    rw [hfile] at hfull
    dsimp only at hfull ⊢
    refine .ite (fun _ => printError2_playlist_yields) fun hallow => ?_
    rw [addidFile, playlistAppendFile]
    by_cases hassert : p.assertions = true ∧ (path.head? = some '/' &&
        !uriHasScheme path && !decide ('\n' ∈ path)) = false
    · rw [songFileLoad, assert, if_pos hassert]
      exact .error
    · rw [if_neg (by tauto)] at hfull
      rw [songFileLoad_eq hassert, Except.ok_bind]
      cases hload : sys.loadFile path with
      | none => exact printError2_playlist_yields
      | some song =>
        dsimp only
        rw [onPlaylist_appendSong_full (s := s.loaded path) (hfull song hload)]
        exact printError2_playlist_yields
  | none =>
    rw [hfile] at hfull
    refine .ite (fun _ => ?_) fun hscheme => ?_
    · exact commandError_yields.bind fun t ht =>
        .ok (congrArg World.playlist ht)
    · rw [if_neg hscheme] at hfull
      rw [playlistAppendUri]
      cases hsong : s.songByUri sys (argv.getD 1 []) with
      | none => exact printError2_playlist_yields
      | some song =>
        dsimp only
        rw [onPlaylist_appendSong_full (hfull song hsong)]
        exact printError2_playlist_yields

variable (argv) in
/-- **A song is added**; what follows is left to the end of the handler. -/
theorem handleAddid_of_adds (h : s.world.playlist.Inv) (hadds : s.Adds p sys (argv.getD 1 [])) :
    ∃ (t : Server (World data R)) (song : σ),
      s.handleAddid p sys argv = t.finishAddid p argv (s.nextId song) ∧
      t.currentCommand = s.currentCommand ∧ t.world.playlist.Inv ∧
      t.world.playlist.queue.contents =
        s.world.playlist.queue.contents ++ [⟨song, s.nextId song, 0, 0⟩] := by
  obtain ⟨hfull, hsong⟩ := hadds
  obtain ⟨song, hsong⟩ := Option.isSome_iff_exists.mp hsong
  rw [addidSong] at hsong
  rw [handleAddid]
  cases hfile : filePath (argv.getD 1 []) with
  | some path =>
    rw [hfile] at hsong
    dsimp only at hsong ⊢
    split at hsong
    · cases hsong
    · rename_i hallow
      obtain ⟨pl, happend, hinv, hcontents⟩ :=
        onPlaylist_appendSong (s := s.loaded path) h hfull song
      refine ⟨(s.loaded path).withPlaylist pl, song, ?_, rfl, hinv, hcontents⟩
      rw [if_neg (by tauto), addidFile, playlistAppendFile, songFileLoad_eq (by tauto),
        Except.ok_bind, hsong]
      dsimp only
      rw [happend]
      rfl
  | none =>
    rw [hfile] at hsong
    dsimp only at hsong ⊢
    split at hsong
    · cases hsong
    · rename_i hscheme
      obtain ⟨pl, happend, hinv, hcontents⟩ := onPlaylist_appendSong h hfull song
      refine ⟨s.withPlaylist pl, song, ?_, rfl, hinv, hcontents⟩
      rw [if_neg hscheme, playlistAppendUri, hsong]
      dsimp only
      rw [happend]
      rfl

/-! ### The end of the handler -/

omit [Qsort] [DecidableEq σ] [SongRef σ] in
theorem onPlaylist_eq_yields {edit : Playlist σ → Except Fault (Playlist σ × Status)} :
    (s.onPlaylist edit).Yields fun r => ∃ pl status,
      edit s.world.playlist = .ok (pl, status) ∧ r = (status.code, s.withPlaylist pl) := by
  rw [onPlaylist]
  cases hedit : edit s.world.playlist with
  | error fault => exact .error
  | ok r => exact .ok ⟨r.1, r.2, rfl, rfl⟩

theorem deleteId_last {pl : Playlist σ} (h : pl.queue.Inv) {l : List (QueueItem σ)}
    (hcontents : pl.queue.contents = l ++ [⟨song, id, 0, 0⟩]) :
    (pl.deleteId id).Yields fun r => r.1.queue.contents = l := by
  have hpos : pl.queue.positionOfId id = l.length := h.indexed.positionOfId_append hcontents
  rw [Playlist.deleteId, hpos]
  refine .ite (fun hneg => absurd hneg (by omega)) fun _ => ?_
  refine (pl.delete_contents l.length).mono fun r hr => ?_
  rw [hr, hcontents, eraseIdx_append_of_length_le le_rfl, Nat.sub_self, eraseIdx_zero,
    tail_cons, append_nil]

/-- **A readable position.** If the song cannot be moved there, it is deleted again. -/
theorem finishAddid_of_accepts (hacc : AcceptsUnsigned target) (h : s.world.playlist.Inv)
    {l : List (QueueItem σ)}
    (hcontents : s.world.playlist.queue.contents = l ++ [⟨song, id, 0, 0⟩]) {cmd : Text} :
    (s.finishAddid p [cmd, uri, target] id).Yields fun r =>
      r.1 = .error → r.2.world.playlist.queue.contents = l := by
  rw [finishAddid, checkUnsigned_of_accepts hacc, Except.ok_bind]
  refine onPlaylist_eq_yields.bind fun r hr => ?_
  obtain ⟨pl, status, hmove, rfl⟩ := hr
  refine .ite (fun hne => ?_) fun _ => .ok fun herror => by cases herror
  have hsame : pl = s.world.playlist := by
    refine Playlist.moveId_of_failure _ id _ _ hmove fun hsuccess => hne ?_
    dsimp only at hsuccess ⊢
    rw [hsuccess]
    rfl
  subst hsame
  refine printError2_yields.bind fun r hr => onPlaylist_eq_yields.bind fun r' hr' => ?_
  obtain ⟨pl', status', hdelete, rfl⟩ := hr'
  refine .ok fun _ => ?_
  have hplaylist : r.2.world.playlist = s.world.playlist := congrArg World.playlist hr
  rw [hplaylist] at hdelete
  exact deleteId_last h.queue hcontents _ hdelete

/-- **An unreadable position.** The song stays. -/
theorem finishAddid_of_not_accepts {name : Text} (hacc : ¬ AcceptsUnsigned target)
    (hname : s.currentCommand = some name) {cmd : Text} :
    (s.finishAddid p [cmd, uri, target] id).Succeeds fun r =>
      r.1 = .error ∧ r.2.world.playlist = s.world.playlist := by
  refine (checkUnsigned_of_not_accepts hacc hname).bind fun r hr => ?_
  obtain ⟨result, t⟩ := r
  obtain ⟨rfl, hworld⟩ := hr
  exact .ok ⟨rfl, congrArg World.playlist hworld⟩

/-- **An `addid` with a position that fails leaves the queue as it was.** -/
def AddidKeepsQueue (p : Platform) (sys : System data R) (s : Server (World data R))
    (uri target : Text) : Prop :=
  let c : FileCommand := .addid (some target)
  ((c.called s).handleAddid p sys (c.argv uri)).Yields fun r => r.1 = .error →
    r.2.world.playlist.queue.contents = s.world.playlist.queue.contents

/-- **Failed commands.** An `addid` that fails leaves the queue alone exactly if no song was added,
or the position is a number. -/
theorem addidKeepsQueue_iff (p : Platform) (sys : System data R) (h : s.world.playlist.Inv)
    (uri target : Text) :
    s.AddidKeepsQueue p sys uri target ↔ (s.Adds p sys uri → AcceptsUnsigned target) := by
  set t := FileCommand.called (.addid (some target)) s
  constructor
  · intro hkeeps hadds
    by_contra hacc
    obtain ⟨u, song, hrun, hname, -, hcontents⟩ :=
      handleAddid_of_adds ["addid".toList, uri, target] (s := t) h hadds
    have hfinish : (u.finishAddid p ["addid".toList, uri, target] (t.nextId song)).Succeeds _ :=
      finishAddid_of_not_accepts hacc hname
    obtain ⟨r, hr, herror, hplaylist⟩ := hfinish
    have hlen := congrArg length (hkeeps r (hrun.trans hr) herror)
    rw [hplaylist, hcontents, length_append, length_singleton] at hlen
    exact absurd hlen (Nat.succ_ne_self _)
  · intro hcond
    by_cases hadds : s.Adds p sys uri
    · obtain ⟨u, song, hrun, -, hinv, hcontents⟩ :=
        handleAddid_of_adds ["addid".toList, uri, target] (s := t) h hadds
      show (t.handleAddid p sys ["addid".toList, uri, target]).Yields _
      rw [hrun]
      exact finishAddid_of_accepts (hcond hadds) hinv hcontents
    · refine (handleAddid_of_not_adds ["addid".toList, uri, target] (s := t) hadds).mono
        fun r hr _ => ?_
      rw [hr]
      rfl

end Handler

theorem addidKeepsQueue_position :
    let p : Platform := ⟨true, "(null)".toList, [], false⟩
    let s := Server.stranger permissionAdd
    s.Adds p quietSystem "file:///music/a.ogg".toList ∧
    ((FileCommand.called (.addid (some "5".toList)) s).handleAddid p quietSystem
      ["addid".toList, "file:///music/a.ogg".toList, "5".toList]).Succeeds (·.1 = .error) ∧
    s.AddidKeepsQueue p quietSystem "file:///music/a.ogg".toList "5".toList := by
  intro p s
  refine ⟨⟨rfl, rfl⟩, by decide, (addidKeepsQueue_iff p quietSystem ?_ _ _).mpr fun _ => ?_⟩
  · exact Playlist.inv_numbered _ _
  · decide

theorem not_addidKeepsQueue_letter :
    let p : Platform := ⟨true, "(null)".toList, [], false⟩
    let s := Server.stranger permissionAdd
    s.world.playlist.queue.length = 0 ∧
    ((FileCommand.called (.addid (some "x".toList)) s).handleAddid p quietSystem
      ["addid".toList, "file:///music/a.ogg".toList, "x".toList]).Succeeds (fun r =>
        r.1 = .error ∧ r.2.world.playlist.queue.length = 1) ∧
    ¬ s.AddidKeepsQueue p quietSystem "file:///music/a.ogg".toList "x".toList := by
  intro p s
  have hrun : ((FileCommand.called (.addid (some "x".toList)) s).handleAddid p quietSystem
      ["addid".toList, "file:///music/a.ogg".toList, "x".toList]).Succeeds fun r =>
        r.1 = .error ∧ r.2.world.playlist.queue.length = 1 := by
    decide
  refine ⟨rfl, hrun, fun h => ?_⟩
  obtain ⟨r, hr, herror, hlen⟩ := hrun
  have hcontents := congrArg length (h r hr herror)
  rw [Queue.length_contents, Queue.length_contents, hlen] at hcontents
  exact absurd hcontents (by decide)

end Server

end Mpd
