import Mathlib.Data.List.Forall2
import Mpd.Cue.Bounds

/-!
# The songs of a CUE sheet

A song goes through three places: it is the current one, then the previous one, whose end the next
song sets, and at last it is finished and returned. The songs in these places are the tracks of the
sheet that have not been delivered yet, in their order (`Parser.Tracks`).

A sheet is delivered as it should be if and only if no line is read beyond its end
(`delivers_iff`). A command without its argument, such as `TITLE` at the end of a line, is.
-/

namespace Mpd

open Option List Except

namespace Cue

/-! ### The tracks of a sheet -/

/-- What a sheet says: is the current file ignored, what is its name, and which tracks are there, as
file names and numbers. -/
structure Sheet where
  ignoring : Bool
  filename : Option Text
  tracks : List (Text × Text)

namespace Sheet

def start : Sheet where
  ignoring := false
  filename := none
  tracks := []

def file (a : Sheet) : Option (Text × Text) → Sheet
  | none => a
  | some (filename, type) =>
    if type = "WAVE".toList ∨ type = "MP3".toList ∨ type = "AIFF".toList then
      { a with ignoring := false, filename := some filename }
    else { a with ignoring := true }

def track (a : Sheet) : Option (Text × Text) → Sheet
  | none => a
  | some (nr, type) =>
    if a.ignoring = false ∧ type = "AUDIO".toList then
      { a with tracks := a.tracks ++ [(a.filename.getD [], nr)] }
    else a

def line (a : Sheet) (p : Text) : Sheet :=
  match nextToken p with
  | .ok (some command, rest) =>
    if command = "FILE".toList then a.file (nextPair nextValue rest).toOption.join
    else if command = "TRACK".toList then a.track (nextPair nextToken rest).toOption.join
    else a
  | _ => a

variable {a : Sheet} {state : State} {p rest : Text} {args : Option (Text × Text)}

theorem line_file (h : nextToken p = .ok (some "FILE".toList, rest))
    (hargs : nextPair nextValue rest = .ok args) : a.line p = a.file args := by
  rw [line, h]
  dsimp only
  rw [if_pos rfl, hargs]
  rfl

theorem line_track (h : nextToken p = .ok (some "TRACK".toList, rest))
    (hargs : nextPair nextToken rest = .ok args) : a.line p = a.track args := by
  rw [line, h]
  dsimp only
  rw [if_neg (by decide), if_pos rfl, hargs]
  rfl

theorem line_other (h : OtherIn state p) (hignoring : state = .ignoreFile → a.ignoring = true) :
    a.line p = a := by
  rw [line]
  split
  · next command rest hcommand =>
    obtain ⟨hfile, htrack⟩ := h command rest hcommand
    rw [if_neg hfile]
    split
    · next hcommand =>
      rw [track.eq_def, hignoring (htrack hcommand)]
      split
      · rfl
      · exact if_neg fun hnot => Bool.noConfusion hnot.1
    · rfl
  · rfl

end Sheet

/-- The song of a track: it has the name of the file, and the number is among its tags. -/
structure Song.Of [Utf8] (ignored : TagType → Bool) (track : Text × Text) (song : Song) : Prop where
  uri : song.uri = track.1
  number : (Tag.new.addItem ignored .track track.2).items ⊆ song.tag.items

def Song.Timed (song : Song) : Prop :=
  song.endMs = 0 ∨ song.startMs < song.endMs ∧
    song.tag.time.toInt = ((song.endMs - song.startMs + 500) / 1000 : ℕ)

/-! ### The places of the songs -/

def Parser.pipeline (s : Parser) : List Song :=
  s.finished.toList ++ (s.previous.toList ++ s.current.toList)

/-- How a parser is related to what the sheet says, after `delivered` has been delivered. -/
structure Parser.Tracks [Utf8] (ignored : TagType → Bool) (delivered : List Song) (a : Sheet)
    (s : Parser) : Prop where
  ended : s.ended = false
  ignoring : a.ignoring = true ↔ s.state = .ignoreFile
  filename : a.filename = s.filename
  named : ∀ filename ∈ s.filename, filename ≠ []
  songs : List.Forall₂ (Song.Of ignored) a.tracks (delivered ++ s.pipeline)
  timed : ∀ song ∈ delivered ++ s.finished.toList, song.Timed
  previous : ∀ song ∈ s.previous, song.Timed ∧ song.startMs < 2 ^ 31
  current : ∀ song ∈ s.current, song.endMs = 0 ∧ song.startMs < 2 ^ 31

theorem forall₂_replace {α β : Type} {R : α → β → Prop} {l : List α} {before after : List β}
    {x y : β} (h : List.Forall₂ R l (before ++ x :: after)) (hxy : ∀ a, R a x → R a y) :
    List.Forall₂ R l (before ++ y :: after) := by
  induction before generalizing l with
  | nil =>
    obtain ⟨a, l', ha, hl', rfl⟩ := forall₂_cons_right_iff.mp h
    exact .cons (hxy a ha) hl'
  | cons b before ih =>
    obtain ⟨a, l', ha, hl', rfl⟩ := forall₂_cons_right_iff.mp h
    exact .cons ha (ih hl')

theorem parsePosition_lt (p : Text) : parsePosition p < 2 ^ 31 := by
  have hminus : (-1 : ℤ) < 2 ^ 31 := by decide
  rw [parsePosition]
  dsimp only
  split
  · exact hminus
  · split
    · exact hminus
    · split
      · exact hminus
      · exact Int.bmod_lt (Nat.two_pow_pos 32)

section Tracks

variable [Utf8] {ignored : TagType → Bool} {delivered : List Song} {a : Sheet} {s : Parser}
  {p : Text}

theorem items_subset_addItem (tag : Tag) (type : TagType) (value : Text) :
    tag.items ⊆ (tag.addItem ignored type value).items := by
  rw [Tag.addItem]
  split
  · exact List.Subset.refl _
  · split
    · exact List.Subset.refl _
    · exact subset_append_left _ _

theorem addItem_new_subset (tag : Tag) (type : TagType) (value : Text) :
    (Tag.new.addItem ignored type value).items ⊆ (tag.addItem ignored type value).items := by
  rw [Tag.addItem, Tag.addItem]
  split
  · exact nil_subset _
  · split
    · exact nil_subset _
    · exact subset_append_right _ _

theorem Parser.Tracks.committed (h : s.Tracks ignored delivered a) (hfinished : s.finished = none) :
    s.committed.Tracks ignored delivered a := by
  cases hcurrent : s.current with
  | none =>
    rw [Parser.committed, hcurrent]
    exact h
  | some song =>
    obtain ⟨hend, hstart⟩ := h.current song hcurrent
    have hsongs := h.songs
    have htimed := h.timed
    rw [pipeline, hfinished, hcurrent] at hsongs
    rw [Parser.committed, hcurrent]
    refine ⟨h.ended, h.ignoring, h.filename, h.named, hsongs, ?_, ?_, ?_⟩
    · intro song' hmem
      obtain hmem | hmem := mem_append.mp hmem
      · exact htimed song' (mem_append_left _ hmem)
      · exact (h.previous song' (mem_toList.mp hmem)).1
    · rintro _ ⟨⟩
      exact ⟨.inl hend, hstart⟩
    · rintro _ ⟨⟩

namespace Parser.Tracks

section Replace

variable {song song' : Song}

theorem setCurrent (h : s.Tracks ignored delivered a) (hcurrent : s.current = some song)
    (huri : song'.uri = song.uri) (hitems : song.tag.items ⊆ song'.tag.items)
    (hend : song'.endMs = 0) (hstart : song'.startMs < 2 ^ 31) :
    Tracks ignored delivered a { s with current := some song' } := by
  refine ⟨h.ended, h.ignoring, h.filename, h.named, ?_, h.timed, h.previous, ?_⟩
  · have hsongs := h.songs
    rw [pipeline, hcurrent, ← append_assoc, ← append_assoc] at hsongs
    rw [pipeline, ← append_assoc, ← append_assoc]
    exact forall₂_replace hsongs fun t ht => ⟨huri.trans ht.uri, List.Subset.trans ht.number hitems⟩
  · rintro _ ⟨⟩
    exact ⟨hend, hstart⟩

theorem setPrevious (h : s.Tracks ignored delivered a) (hprevious : s.previous = some song)
    (huri : song'.uri = song.uri) (hitems : song.tag.items ⊆ song'.tag.items)
    (htimed : song'.Timed) (hstart : song'.startMs < 2 ^ 31) (lastUpdated : Bool) :
    Tracks ignored delivered a
      { s with previous := some song', lastUpdated := lastUpdated } := by
  refine ⟨h.ended, h.ignoring, h.filename, h.named, ?_, h.timed, ?_, h.current⟩
  · have hsongs := h.songs
    rw [pipeline, hprevious, ← append_assoc] at hsongs
    rw [pipeline, ← append_assoc]
    exact forall₂_replace hsongs fun t ht => ⟨huri.trans ht.uri, List.Subset.trans ht.number hitems⟩
  · rintro _ ⟨⟩
    exact ⟨htimed, hstart⟩

end Replace

section

variable (h : s.Tracks ignored delivered a)
include h

theorem editTag_within (item : Option (TagType × Text)) :
    (s.editTag fun tag => .ok (addItem? ignored item tag)).Within (fun e => ¬ NotNull e)
      (Tracks ignored delivered a) := by
  rw [editTag.eq_def]
  split
  · exact .ok
      ⟨h.ended, h.ignoring, h.filename, h.named, h.songs, h.timed, h.previous, h.current⟩
  · split
    · exact .error fun hnot => hnot.1 rfl
    · next song hcurrent =>
      obtain ⟨hend, hstart⟩ := h.current song hcurrent
      refine .ok (h.setCurrent hcurrent rfl ?_ hend hstart)
      cases item with
      | none => exact List.Subset.refl _
      | some item => exact items_subset_addItem ..
  · exact .ok h

theorem file {args : Option (Text × Text)}
    (hnamed : ∀ filename type, args = some (filename, type) → filename ≠ []) :
    (s.file args).Tracks ignored delivered (a.file args) := by
  cases args with
  | none => exact h
  | some args =>
    obtain ⟨filename, type⟩ := args
    rw [Parser.file, Sheet.file]
    by_cases htype : type = "WAVE".toList ∨ type = "MP3".toList ∨ type = "AIFF".toList
    · rw [if_pos htype, if_neg (by simpa only [ne_eq, ← not_or, not_not] using htype)]
      refine ⟨h.ended, iff_of_false Bool.false_ne_true State.noConfusion, rfl, ?_, h.songs, h.timed,
        h.previous, h.current⟩
      rintro _ ⟨⟩
      exact hnamed filename type rfl
    · rw [if_neg htype]
      rw [not_or, not_or] at htype
      rw [if_pos htype]
      exact ⟨h.ended, iff_of_true rfl rfl, h.filename, h.named, h.songs, h.timed, h.previous,
        h.current⟩

theorem track_within (hcurrent : s.current = none)
    (hstate : s.state ≠ .ignoreFile) (args : Option (Text × Text)) :
    (s.track ignored args).Within (fun e => ¬ NotNull e)
      (Tracks ignored delivered (a.track args)) := by
  have hignoring : a.ignoring = false := by
    rw [← Bool.not_eq_true, h.ignoring]
    exact hstate
  cases args with
  | none => exact .ok h
  | some args =>
    obtain ⟨nr, type⟩ := args
    rw [Parser.track, Sheet.track]
    by_cases htype : type = "AUDIO".toList
    · rw [if_neg (not_not.mpr htype), if_pos ⟨hignoring, htype⟩, h.filename]
      cases hfilename : s.filename with
      | none => exact .error fun hnot => hnot.2 rfl
      | some filename =>
        dsimp only
        rw [if_neg (h.named filename hfilename), within_ok]
        refine ⟨h.ended, ?_, rfl, ?_, ?_, h.timed, h.previous, ?_⟩
        · rw [hignoring]
          exact iff_of_false Bool.false_ne_true State.noConfusion
        · rintro _ ⟨⟩
          exact h.named filename hfilename
        · have hsongs := h.songs
          rw [pipeline, hcurrent, toList_none, append_nil] at hsongs
          rw [pipeline, ← append_assoc, ← append_assoc, append_assoc delivered]
          exact rel_append hsongs (.cons ⟨rfl, addItem_new_subset ..⟩ .nil)
        · rintro _ ⟨⟩
          exact ⟨rfl, Nat.two_pow_pos 31⟩
    · rw [if_pos htype, if_neg fun hnot => htype hnot.2, within_ok]
      refine ⟨h.ended, ?_, h.filename, h.named, h.songs, h.timed, h.previous, h.current⟩
      rw [hignoring]
      exact iff_of_false Bool.false_ne_true State.noConfusion

theorem updatePrevious {ms : ℕ} (hms : ms < 2 ^ 31) :
    (s.updatePrevious ms).Tracks ignored delivered a := by
  rw [Parser.updatePrevious]
  split
  · exact h
  · next song hprevious =>
    split
    · next hlt =>
      have hmod : (ms - song.startMs + 500) % 2 ^ 32 = ms - song.startMs + 500 :=
        Nat.mod_eq_of_lt (by omega)
      rw [hmod]
      refine h.setPrevious hprevious ?_ ?_ (.inr ⟨hlt.2, ?_⟩) ?_ true
      · rfl
      · exact List.Subset.refl _
      · exact Int32.toInt_ofNat_of_lt (by omega)
      · exact (h.previous song hprevious).2
    · exact h

theorem index_within (args : Option (Text × Text)) :
    (s.index args).Within (fun e => ¬ NotNull e) (Tracks ignored delivered a) := by
  cases args with
  | none => exact .ok h
  | some args =>
    rw [Parser.index]
    refine .ite (fun _ => .ok h) fun hnonneg => ?_
    have hlt := parsePosition_lt args.2
    have hms : (parsePosition args.2).toNat < 2 ^ 31 := by omega
    have hupdated := h.updatePrevious hms
    dsimp only
    split
    · exact .error fun hnot => hnot.1 rfl
    · next song hcurrent =>
      have hend := (hupdated.current song hcurrent).1
      exact .ok (hupdated.setCurrent hcurrent rfl (List.Subset.refl _) hend hms)

/-- **A command keeps the songs in their places.** -/
theorem apply_within (hfinished : s.finished = none)
    {c : Command} (hread : c.ReadFrom s.state p)
    (hnamed : ∀ filename type, c = .file (some (filename, type)) → filename ≠ []) :
    (s.apply ignored c).Within (fun e => ¬ NotNull e) (Tracks ignored delivered (a.line p)) := by
  have hother : OtherIn s.state p → a.line p = a := fun hother =>
    Sheet.line_other hother h.ignoring.mpr
  cases c with
  | skip =>
    rw [hother hread]
    exact .ok h
  | edit item =>
    rw [hother hread]
    exact h.editTag_within item
  | file args =>
    obtain ⟨rest, hcommand, hargs⟩ := hread
    rw [apply, commit_eq hfinished h.ended, ok_bind, within_ok, Sheet.line_file hcommand hargs]
    refine (h.committed hfinished).file fun filename type hargs => ?_
    exact hnamed filename type (congrArg Command.file hargs)
  | track args =>
    obtain ⟨hstate, rest, hcommand, hargs⟩ := hread
    rw [apply, commit_eq hfinished h.ended, ok_bind, Sheet.line_track hcommand hargs]
    exact (h.committed hfinished).track_within (committed_current s)
      ((committed_state s).trans_ne hstate) args
  | index args =>
    rw [hother hread.2]
    exact h.index_within args

theorem take : Tracks ignored (delivered ++ s.finished.toList) a { s with finished := none } := by
  refine ⟨h.ended, h.ignoring, h.filename, h.named, ?_, ?_, h.previous, h.current⟩
  · have hsongs := h.songs
    rw [pipeline, ← append_assoc] at hsongs
    exact hsongs
  · rw [toList_none, append_nil]
    exact h.timed

end

end Parser.Tracks

end Tracks

/-! ### Whole sheets -/

def Reader.readAll [Utf8] (ignored : TagType → Bool) (lines : List Line) (r : Reader) :
    Except CueFault Reader :=
  lines.foldlM (fun r line => r.read ignored line) r

def Reader.drain : ℕ → Reader → Except CueFault (List Song)
  | 0, _ => .error .running
  | rounds + 1, r => do
    let (song, r) ← r.take
    match song with
    | none => .ok r.delivered
    | some _ => drain rounds r

section Sheets

variable [Utf8] (ignored : TagType → Bool)

def play (lines : List Line) (rounds : ℕ) : Except CueFault (List Song) := do
  let r ← Reader.start.readAll ignored lines
  let s ← r.parser.finish
  Reader.drain rounds ⟨s, r.delivered⟩

def tracks (lines : List Line) : List (Text × Text) :=
  (lines.foldl (fun a line => a.line line.memory) Sheet.start).tracks

/-- **What is expected of the parser**: one song for each track, in the order of the sheet, with
their times. -/
def Delivers (lines : List Line) : Prop :=
  Except.Eventually (play ignored lines) fun songs =>
    List.Forall₂ (Song.Of ignored) (tracks lines) songs ∧ ∀ song ∈ songs, song.Timed

end Sheets

/-- A `FILE` line has a name that is not empty. -/
def Line.Named (line : Line) : Prop :=
  ∀ rest, nextToken line.memory = .ok (some "FILE".toList, rest) →
    ∀ filename type, nextPair nextValue rest = .ok (some (filename, type)) → filename ≠ []

/-- The line has the arguments that are read. -/
def Line.InBounds (line : Line) (r : Reader) : Prop :=
  r.parser.Complete (Text.beforeNul line.text)
  deriving Decidable

/-- How a reader is related to what the sheet says. -/
structure Reader.Tracks [Utf8] (ignored : TagType → Bool) (a : Sheet) (r : Reader) : Prop where
  parser : r.parser.Tracks ignored r.delivered a
  finished : r.parser.finished = none

namespace Reader.Tracks

variable [Utf8] {ignored : TagType → Bool} {a : Sheet} {r : Reader} {line : Line}
  {lines : List Line}

/-- **Step.** A line that is not read beyond its end keeps the songs in their places; another one
is not read. -/
theorem read (h : r.Tracks ignored a) (hplain : line.behind = [])
    (hnull : (r.read ignored line).Within NotNull fun _ => True) (hnamed : line.Named) :
    (line.InBounds r → (r.read ignored line).Succeeds (Tracks ignored (a.line line.memory))) ∧
      (∀ r', r.read ignored line = .ok r' → line.InBounds r) := by
  have hsong : r.parser.feed2 ignored line.memory ≠ .error .nullSong := by
    intro herror
    refine (hnull.1 .nullSong ?_).1 rfl
    rw [Reader.read, herror]
    rfl
  have hbounds : r.parser.feed2 ignored line.memory ≠ .error .overrun ↔ line.InBounds r := by
    rw [Line.memory, hplain]
    refine (r.parser.feed2_inBounds_iff line.text).trans ⟨fun hc => ?_, fun hc _ => hc⟩
    exact hc h.parser.ended
  rw [Parser.feed2_eq h.finished h.parser.ended fun _ _ => hsong] at hbounds
  rw [Reader.read_eq h.finished h.parser.ended fun _ _ => hsong] at hnull ⊢
  have hparse := parse_within line.memory r.parser.state
  cases hc : parse r.parser.state line.memory with
  | error e =>
    obtain rfl := hparse.1 e hc
    rw [hc] at hbounds
    refine ⟨fun hin => absurd rfl (hbounds.mpr hin), fun r' hr' => ?_⟩
    cases hr'
  | ok c =>
    rw [hc, within_ok] at hparse
    rw [hc, ok_bind] at hbounds
    rw [hc, ok_bind, Reader.apply] at hnull
    rw [ok_bind, Reader.apply]
    have hwithin := h.parser.apply_within h.finished hparse fun filename type hfile => by
      subst hfile
      obtain ⟨rest, hcommand, hargs⟩ := hparse
      exact hnamed rest hcommand filename type hargs
    cases hs : r.parser.apply ignored c with
    | error e =>
      rw [hs] at hnull hwithin
      exact absurd (hnull.1 e rfl) (hwithin.1 e rfl)
    | ok s =>
      rw [hs] at hbounds
      exact ⟨fun _ => .ok ⟨(hwithin.2 s hs).take, rfl⟩, fun _ _ => hbounds.mp fun he => by cases he⟩

/-- **Run.** -/
theorem readAll (h : r.Tracks ignored a) (hplain : ∀ line ∈ lines, line.behind = [])
    (hnull : Keeps (Reader.read ignored) NotNull (fun _ => True) lines r)
    (hnamed : ∀ line ∈ lines, line.Named) :
    (Follows (Reader.read ignored) Line.InBounds lines r →
      (r.readAll ignored lines).Succeeds
        (Tracks ignored (lines.foldl (fun a line => a.line line.memory) a))) ∧
    (∀ r', r.readAll ignored lines = .ok r' →
      Follows (Reader.read ignored) Line.InBounds lines r) := by
  induction lines generalizing r a with
  | nil => exact ⟨fun _ => .ok h, fun _ _ => trivial⟩
  | cons line lines ih =>
    rw [forall_mem_cons] at hplain hnamed
    obtain ⟨hgood, hbounds⟩ := h.read hplain.1 (hnull.2.mono fun _ _ => trivial) hnamed.1
    rw [Reader.readAll, foldlM_cons, foldl_cons]
    constructor
    · rintro ⟨hline, hlines⟩
      obtain ⟨r', hr', htracks⟩ := hgood hline
      rw [hr', ok_bind]
      exact (ih htracks hplain.2 (hnull.2.2 r' hr') hnamed.2).1 (hlines r' hr')
    · intro r'' hr''
      cases hread : r.read ignored line with
      | error e =>
        rw [hread] at hr''
        cases hr''
      | ok r' =>
        rw [hread, ok_bind] at hr''
        have hline := hbounds r' hread
        obtain ⟨r₁, hr₁, htracks⟩ := hgood hline
        obtain rfl := ok.inj (hread.symm.trans hr₁)
        refine ⟨hline, fun r₂ hr₂ => ?_⟩
        obtain rfl := ok.inj (hread.symm.trans hr₂)
        exact (ih htracks hplain.2 (hnull.2.2 r' hread) hnamed.2).2 r'' hr''

theorem drain_eq (h : r.Tracks ignored a) {rounds : ℕ} (hrounds : 2 < rounds) :
    (r.parser.finish >>= fun s => Reader.drain rounds ⟨s, r.delivered⟩) =
      .ok (r.delivered ++ (r.parser.previous.toList ++ r.parser.current.toList)) := by
  obtain ⟨rounds, rfl⟩ := Nat.exists_eq_add_of_le' (Nat.succ_le_of_lt hrounds)
  obtain ⟨⟨state, tag, filename, current, previous, finished, lastUpdated, ended⟩, delivered⟩ := r
  obtain rfl : finished = none := h.finished
  obtain rfl : ended = false := h.parser.ended
  cases current <;> cases previous <;>
    simp [Parser.finish, Parser.commit, Parser.committed, Reader.drain, Reader.take, Parser.get,
      ok_bind]

theorem delivered (h : r.Tracks ignored a) : List.Forall₂ (Song.Of ignored) a.tracks
        (r.delivered ++ (r.parser.previous.toList ++ r.parser.current.toList)) ∧
      ∀ song ∈ r.delivered ++ (r.parser.previous.toList ++ r.parser.current.toList),
        song.Timed := by
  have hsongs := h.parser.songs
  rw [Parser.pipeline, h.finished, toList_none, nil_append] at hsongs
  refine ⟨hsongs, fun song hmem => ?_⟩
  obtain hmem | hmem := mem_append.mp hmem
  · exact h.parser.timed song (mem_append_left _ hmem)
  · obtain hmem | hmem := mem_append.mp hmem
    · exact (h.parser.previous song (mem_toList.mp hmem)).1
    · exact .inl (h.parser.current song (mem_toList.mp hmem)).1

end Reader.Tracks

theorem Reader.tracks_start [Utf8] {ignored : TagType → Bool} :
    Reader.start.Tracks ignored Sheet.start := by
  refine ⟨⟨rfl, iff_of_false Bool.false_ne_true State.noConfusion, rfl, ?_, .nil, ?_, ?_, ?_⟩, rfl⟩
  · rintro _ ⟨⟩
  · rintro _ ⟨⟩
  · rintro _ ⟨⟩
  · rintro _ ⟨⟩

def Line.plain (text : Text) : Line where
  text := text
  behind := []

/-- **When a sheet is delivered.** If no `NULL` pointer is used and no file name is empty, the songs
are what the sheet says, in its order, each of them once and with their times, if and only if every
line has the arguments that are read. -/
theorem delivers_iff [Utf8] {ignored : TagType → Bool} {texts : List Text}
    (hnull : Keeps (Reader.read ignored) NotNull (fun _ => True) (texts.map .plain) Reader.start)
    (hnamed : ∀ text ∈ texts, (Line.plain text).Named) :
    Delivers ignored (texts.map .plain) ↔
      Follows (Reader.read ignored) Line.InBounds (texts.map .plain) Reader.start := by
  obtain ⟨hgood, hbounds⟩ := Reader.tracks_start.readAll (forall_mem_map.mpr fun _ _ => rfl) hnull
    (forall_mem_map.mpr hnamed)
  constructor
  · rintro ⟨N, hN⟩
    obtain ⟨r, hr, -⟩ := (hN N (Nat.le_refl N)).of_bind
    exact hbounds r hr
  · intro hfollows
    obtain ⟨r, hr, htracks⟩ := hgood hfollows
    have hplay : ∀ rounds, 2 < rounds → play ignored (texts.map .plain) rounds =
        .ok (r.delivered ++ (r.parser.previous.toList ++ r.parser.current.toList)) := by
      intro rounds hrounds
      rw [play, hr, ok_bind]
      exact htracks.drain_eq hrounds
    exact (eventually_iff_of_lt hplay).mpr (.ok htracks.delivered)

def twoTracks : List Text :=
  ["FILE \"a.wav\" WAVE", "TRACK 01 AUDIO", "INDEX 01 00:00:00", "TRACK 02 AUDIO",
    "INDEX 01 00:02:00"].map String.toList

theorem delivers_iff_two : (play (fun _ => false) (twoTracks.map .plain) 3).Succeeds (fun songs =>
      songs.map (fun song => (song.startMs, song.endMs, song.tag.time)) =
        [(0, 2000, 2), (2000, 0, -1)]) ∧
      Delivers (fun _ => false) (twoTracks.map .plain) := by
  have hnull : Keeps (Reader.read fun _ => false) NotNull (fun _ => True) (twoTracks.map .plain)
      Reader.start :=
    ⟨trivial, .ok ⟨trivial, .ok ⟨trivial, .ok
      ⟨trivial, .ok ⟨trivial, .ok trivial⟩⟩⟩⟩⟩
  have hnamed : ∀ text ∈ twoTracks, (Line.plain text).Named := by
    simp only [twoTracks, map_cons, map_nil, forall_mem_cons]
    refine ⟨?_, ?_, ?_, ?_, ?_, fun _ h => absurd h not_mem_nil⟩
    · rintro rest ⟨⟩ filename type ⟨⟩
      exact cons_ne_nil _ _
    all_goals rintro rest ⟨⟩
  exact ⟨by decide, (delivers_iff hnull hnamed).mpr (by decide)⟩

theorem not_delivers_title :
    Keeps (Reader.read fun _ => false) NotNull (fun _ => True) [.plain "TITLE".toList]
        Reader.start ∧
      (Line.plain "TITLE".toList).Named ∧
      ¬ Delivers (fun _ => false) [.plain "TITLE".toList] ∧
      tracks (["FILE a WAVE", "TRACK 01"].map fun s => .plain s.toList) = [] ∧
      (play (fun _ => false) [.plain "FILE a WAVE".toList,
        ⟨"TRACK 01".toList, "AUDIO\x00".toList⟩] 3).Succeeds (·.length = 1) := by
  refine ⟨⟨trivial, ?_⟩, ?_, ?_, by decide, by decide⟩
  · exact .error ⟨CueFault.noConfusion, CueFault.noConfusion⟩
  · rintro rest ⟨⟩
  · exact not_eventually fun _ => rfl

end Cue

end Mpd
