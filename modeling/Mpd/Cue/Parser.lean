import Mpd.Database.Tag
import Mpd.General.Number
import Mpd.General.Runs

/-!
# The CUE parser

`cue/cue_parser.c` reads a CUE sheet line by line. A `FILE` line names a file, a `TRACK` line begins
a song, and the lines that follow edit it, until the next `FILE` or `TRACK` commits it. A committed
song is kept until it has been edited by the next one, which sets its end.

The state of the parser and the pointer to the current song are set in different places: a `FILE` or
`TRACK` line commits the song, and if it is not complete, the state stays what it was. After a track
the parser is then still in a track, without a song. And a `TRACK` line before any `FILE` line
creates a song without a file name. There are no other uses of a `NULL` pointer (`keepsSong_iff`).

A word at the end of a line is ended by the terminator of the line, and the next word is searched
behind it: a line that lacks an argument is read beyond its end.
-/

namespace Mpd

open Option Except

namespace Cue

/-! ### Words -/

inductive CueFault
  /-- memory is read that does not belong to the line, nor to what is behind it -/
  | overrun
  /-- the current song is `NULL` and it is used -/
  | nullSong
  /-- `uri != NULL`, where a song is allocated -/
  | nullFilename
  /-- `uri_length > 0`, where a song is allocated -/
  | emptyFilename
  /-- `parser->finished == NULL` -/
  | finished
  /-- `!parser->end` -/
  | ended
  /-- `parser->current == NULL` -/
  | current
  | running
  deriving DecidableEq, Repr

def inWord (c : Char) : Bool :=
  c ≠ '\x00' && !Text.isSpace c

def nextWord (p : Text) : Except CueFault (Text × Text) :=
  match p.dropWhile inWord with
  | [] => .error .overrun
  | _ :: rest => .ok (p.takeWhile inWord, rest)

def inQuotes (c : Char) : Bool :=
  c ≠ '\x00' && c ≠ '"'

def nextQuoted (p : Text) : Except CueFault (Text × Text) :=
  match p.dropWhile inQuotes with
  | [] => .error .overrun
  | c :: rest => .ok (p.takeWhile inQuotes, if c = '"' then rest else c :: rest)

def nextToken (p : Text) : Except CueFault (Option Text × Text) :=
  match Text.chug p with
  | [] => .error .overrun
  | c :: rest =>
    if c = '\x00' then .ok (none, p)
    else do
      let (word, p) ← nextWord (c :: rest)
      .ok (some word, p)

def nextValue (p : Text) : Except CueFault (Option Text × Text) :=
  match Text.chug p with
  | [] => .error .overrun
  | c :: rest =>
    if c = '\x00' then .ok (none, p)
    else do
      let (value, p) ← (if c = '"' then nextQuoted rest else nextWord (c :: rest))
      .ok (some value, p)

def nextPair (next : Text → Except CueFault (Option Text × Text)) (p : Text) :
    Except CueFault (Option (Text × Text)) := do
  let (first, p) ← next p
  match first with
  | none => .ok none
  | some first =>
    let (second, _) ← nextToken p
    .ok (second.map (first, ·))

def nameParseI (name : Text) : Option TagType :=
  (tagItemNames.find? fun item => equalsIgnoringCase name item.2.toList).map Prod.fst

section Tags

variable [Utf8] (ignored : TagType → Bool)

def addTag (tag : Tag) (type : TagType) (p : Text) : Except CueFault Tag := do
  let (value, _) ← nextValue p
  .ok (value.elim tag (tag.addItem ignored type))

def parseRem (p : Text) (tag : Tag) : Except CueFault Tag := do
  let (type, p) ← nextToken p
  match type.bind nameParseI with
  | none => .ok tag
  | some type => addTag ignored tag type p

end Tags

def parsePosition (p : Text) : ℤ :=
  let (minutes, rest) := Text.strtoul p
  if rest = p ∨ rest.head? ≠ some ':' then -1
  else
    let p := rest.tail
    let (seconds, rest) := Text.strtoul p
    if rest = p ∨ rest.head? ≠ some ':' then -1
    else
      let p := rest.tail
      let (frames, rest) := Text.strtoul p
      if rest = p ∨ rest ≠ [] then -1
      else
        let ms : ℕ := (minutes * 60000 + seconds * 1000 + frames * 1000 % 2 ^ 64 / 75) % 2 ^ 64
        (ms : ℤ).bmod (2 ^ 32)

/-! ### The parser -/

inductive State
  | header
  /-- in a `FILE` -/
  | wave
  /-- ignore everything until the next `FILE` -/
  | ignoreFile
  | track
  /-- ignore everything until the next `TRACK` -/
  | ignoreTrack
  deriving DecidableEq, Repr

/-- `struct song`. -/
structure Song where
  uri : Text
  tag : Tag
  startMs : ℕ
  endMs : ℕ
  deriving DecidableEq, Repr

/-- `struct cue_parser`. -/
structure Parser where
  state : State
  tag : Tag
  filename : Option Text
  /-- the song that is being edited -/
  current : Option Song
  /-- the song whose end is not known yet -/
  previous : Option Song
  /-- a song that can be returned -/
  finished : Option Song
  lastUpdated : Bool
  ended : Bool
  deriving DecidableEq, Repr

namespace Parser

def new : Parser where
  state := .header
  tag := .new
  filename := none
  current := none
  previous := none
  finished := none
  lastUpdated := false
  ended := false

def committed (s : Parser) : Parser :=
  match s.current with
  | none => s
  | some song => { s with finished := s.previous, previous := some song, current := none }

def commit (s : Parser) : Except CueFault Parser :=
  if s.finished.isSome then .error .finished
  else if s.ended then .error .ended
  else .ok s.committed

def editTag (s : Parser) (f : Tag → Except CueFault Tag) : Except CueFault Parser :=
  match s.state with
  | .header => do
    let tag ← f s.tag
    .ok { s with tag := tag }
  | .track =>
    match s.current with
    | none => .error .nullSong
    | some song => do
      let tag ← f song.tag
      .ok { s with current := some { song with tag := tag } }
  | _ => .ok s

def file (s : Parser) : Option (Text × Text) → Parser
  | none => s
  | some (filename, type) =>
    if type ≠ "WAVE".toList ∧ type ≠ "MP3".toList ∧ type ≠ "AIFF".toList then
      { s with state := .ignoreFile }
    else { s with state := .wave, filename := some filename }

def track [Utf8] (ignored : TagType → Bool) (s : Parser) :
    Option (Text × Text) → Except CueFault Parser
  | none => .ok s
  | some (nr, type) =>
    if type ≠ "AUDIO".toList then .ok { s with state := .ignoreTrack }
    else
      match s.filename with
      | none => .error .nullFilename
      | some filename =>
        if filename = [] then .error .emptyFilename
        else
          .ok { s with
            state := .track
            current := some ⟨filename, s.tag.addItem ignored .track nr, 0, 0⟩
            lastUpdated := false }

def updatePrevious (s : Parser) (ms : ℕ) : Parser :=
  match s.previous with
  | none => s
  | some song =>
    if s.lastUpdated = false ∧ song.startMs < ms then
      let time := (ms - song.startMs + 500) % 2 ^ 32 / 1000
      { s with
        lastUpdated := true
        previous := some { song with
          endMs := ms, tag := { song.tag with time := Int32.ofNat time } } }
    else s

def index (s : Parser) : Option (Text × Text) → Except CueFault Parser
  | none => .ok s
  | some (_, position) =>
    let ms := parsePosition position
    if ms < 0 then .ok s
    else
      let s := s.updatePrevious ms.toNat
      match s.current with
      | none => .error .nullSong
      | some song => .ok { s with current := some { song with startMs := ms.toNat } }

def feed2 [Utf8] (ignored : TagType → Bool) (s : Parser) (p : Text) : Except CueFault Parser :=
  if s.ended then .error .ended
  else do
    let (command, p) ← nextToken p
    match command with
    | none => .ok s
    | some command =>
      if command = "REM".toList then s.editTag fun tag => parseRem ignored p tag
      else if command = "PERFORMER".toList then
        let type := if s.state = .track then .artist else .albumArtist
        s.editTag fun tag => addTag ignored tag type p
      else if command = "TITLE".toList then
        let type := if s.state = .header then .album else .title
        s.editTag fun tag => addTag ignored tag type p
      else if command = "FILE".toList then do
        let s ← s.commit
        let args ← nextPair nextValue p
        .ok (s.file args)
      else if s.state = .ignoreFile then .ok s
      else if command = "TRACK".toList then do
        let s ← s.commit
        let args ← nextPair nextToken p
        s.track ignored args
      else if s.state = .ignoreTrack then .ok s
      else if s.state = .track ∧ command = "INDEX".toList then do
        let args ← nextPair nextToken p
        s.index args
      else .ok s

def finish (s : Parser) : Except CueFault Parser :=
  if s.ended then .ok s
  else do
    let s ← s.commit
    .ok { s with ended := true }

def get (s : Parser) : Except CueFault (Option Song × Parser) :=
  if s.finished = none ∧ s.ended then
    -- deliver all remaining (partial) results
    if s.current = none then .ok (s.previous, { s with finished := none, previous := none })
    else .error .current
  else .ok (s.finished, { s with finished := none })

end Parser

/-- A parser with the songs that have been returned. -/
structure Reader where
  parser : Parser
  delivered : List Song

/-- A line in memory: `cue_parser_feed` allocates a copy of it with a terminator, and there is
something behind it. -/
structure Line where
  text : Text
  behind : Text

def Line.memory (line : Line) : Text :=
  Text.beforeNul line.text ++ '\x00' :: line.behind

namespace Reader

def start : Reader where
  parser := .new
  delivered := []

def take (r : Reader) : Except CueFault (Option Song × Reader) := do
  let (song, s) ← r.parser.get
  .ok (song, ⟨s, r.delivered ++ song.toList⟩)

def read [Utf8] (ignored : TagType → Bool) (line : Line) (r : Reader) : Except CueFault Reader := do
  let s ← r.parser.feed2 ignored line.memory
  let (_, r) ← take ⟨s, r.delivered⟩
  .ok r

end Reader

/-! ### Commands

What a line says depends on the state of the parser, and not on the songs. `cue_parser_feed2` reads
a command and carries it out (`feed2_eq`). -/

inductive Command
  /-- nothing is read, or it is ignored -/
  | skip
  /-- an item is added to the current tag -/
  | edit (item : Option (TagType × Text))
  | file (args : Option (Text × Text))
  | track (args : Option (Text × Text))
  | index (args : Option (Text × Text))
  deriving DecidableEq, Repr

def valueItem (type : TagType) (p : Text) : Except CueFault (Option (TagType × Text)) := do
  let (value, _) ← nextValue p
  .ok (value.map (type, ·))

def remItem (p : Text) : Except CueFault (Option (TagType × Text)) := do
  let (type, p) ← nextToken p
  match type.bind nameParseI with
  | none => .ok none
  | some type => valueItem type p

def State.HasTag (state : State) : Prop :=
  state = .header ∨ state = .track
  deriving Decidable

def parse (state : State) (p : Text) : Except CueFault Command := do
  let (command, p) ← nextToken p
  match command with
  | none => .ok .skip
  | some command =>
    if command = "REM".toList then
      if state.HasTag then .edit <$> remItem p else .ok .skip
    else if command = "PERFORMER".toList then
      let type := if state = .track then .artist else .albumArtist
      if state.HasTag then .edit <$> valueItem type p else .ok .skip
    else if command = "TITLE".toList then
      let type := if state = .header then .album else .title
      if state.HasTag then .edit <$> valueItem type p else .ok .skip
    else if command = "FILE".toList then .file <$> nextPair nextValue p
    else if state = .ignoreFile then .ok .skip
    else if command = "TRACK".toList then .track <$> nextPair nextToken p
    else if state = .ignoreTrack then .ok .skip
    else if state = .track ∧ command = "INDEX".toList then .index <$> nextPair nextToken p
    else .ok .skip

namespace Parser

section Committed

variable (s : Parser)

@[simp]
theorem committed_state : s.committed.state = s.state := by
  rw [committed]
  split <;> rfl

@[simp]
theorem committed_filename : s.committed.filename = s.filename := by
  rw [committed]
  split <;> rfl

@[simp]
theorem committed_ended : s.committed.ended = s.ended := by
  rw [committed]
  split <;> rfl

@[simp]
theorem committed_current : s.committed.current = none := by
  rw [committed]
  split
  · next h => exact h
  · rfl

variable {s}

theorem commit_eq (hfinished : s.finished = none) (hended : s.ended = false) :
    s.commit = .ok s.committed := by
  rw [commit, hfinished, hended]
  rfl

end Committed

end Parser

theorem Parser.commit_bind_comm {s : Parser} (hfinished : s.finished = none)
    (hended : s.ended = false) {α : Type} (x : Except CueFault α)
    (f : Parser → α → Except CueFault Parser) :
    (s.commit >>= fun s => x >>= f s) = x >>= fun a => s.commit >>= fun s => f s a := by
  rw [commit_eq hfinished hended, ok_bind]
  cases x <;> rfl

theorem Parser.editTag_eq_nullSong {s : Parser} (hstate : s.state = .track)
    (hcurrent : s.current = none) (f : Tag → Except CueFault Tag) :
    s.editTag f = .error .nullSong := by
  simp only [editTag, hstate, hcurrent]

section Commands

variable [Utf8] {ignored : TagType → Bool} {p : Text}

def addItem? (ignored : TagType → Bool) (item : Option (TagType × Text)) (tag : Tag) : Tag :=
  item.elim tag fun item => tag.addItem ignored item.1 item.2

def Parser.apply (ignored : TagType → Bool) (s : Parser) : Command → Except CueFault Parser
  | .skip => .ok s
  | .edit item => s.editTag fun tag => .ok (addItem? ignored item tag)
  | .file args => do
    let s ← s.commit
    .ok (s.file args)
  | .track args => do
    let s ← s.commit
    s.track ignored args
  | .index args => s.index args

theorem addTag_eq (tag : Tag) (type : TagType) : addTag ignored tag type p =
      valueItem type p >>= fun item => .ok (addItem? ignored item tag) := by
  rw [addTag, valueItem]
  cases nextValue p with
  | error e => rfl
  | ok r =>
    obtain ⟨value, rest⟩ := r
    cases value <;> rfl

theorem parseRem_eq (tag : Tag) :
    parseRem ignored p tag = remItem p >>= fun item => .ok (addItem? ignored item tag) := by
  rw [parseRem, remItem]
  cases nextToken p with
  | error e => rfl
  | ok r =>
    obtain ⟨type, rest⟩ := r
    rw [ok_bind, ok_bind]
    dsimp only
    cases type.bind nameParseI with
    | none => rfl
    | some type => exact addTag_eq tag type

theorem Parser.editTag_eq {s : Parser} (hsong : s.state = .track → s.current ≠ none)
    (x : Except CueFault (Option (TagType × Text))) :
    (s.editTag fun tag => x >>= fun item => .ok (addItem? ignored item tag)) =
      (if s.state.HasTag then Command.edit <$> x else .ok .skip) >>= s.apply ignored := by
  obtain ⟨state, tag, filename, current, previous, finished, lastUpdated, ended⟩ := s
  cases state with
  | header => cases x <;> rfl
  | track =>
    cases current with
    | none => exact absurd rfl (hsong rfl)
    | some song => cases x <;> rfl
  | wave => rfl
  | ignoreFile => rfl
  | ignoreTrack => rfl

/-- **A line is read and carried out**, as long as no edit meets a song that is not there. -/
theorem Parser.feed2_eq {s : Parser} (hfinished : s.finished = none) (hended : s.ended = false)
    (hsong : s.state = .track → s.current = none → s.feed2 ignored p ≠ .error .nullSong) :
    s.feed2 ignored p = parse s.state p >>= s.apply ignored := by
  rw [feed2, hended, if_neg Bool.false_ne_true] at hsong ⊢
  rw [parse]
  cases hcommand : nextToken p with
  | error e => rfl
  | ok r =>
    obtain ⟨command, rest⟩ := r
    rw [hcommand, ok_bind] at hsong
    rw [ok_bind, ok_bind]
    cases command with
    | none => rfl
    | some command =>
      have hedit : ∀ x : Except CueFault (Option (TagType × Text)),
          (s.state = .track → s.current = none →
            (s.editTag fun tag => x >>= fun item => .ok (addItem? ignored item tag)) ≠
              .error .nullSong) →
          (s.editTag fun tag => x >>= fun item => .ok (addItem? ignored item tag)) =
            (if s.state.HasTag then Command.edit <$> x else .ok .skip) >>= s.apply ignored := by
        refine fun x hne => editTag_eq (fun hstate hcurrent => ?_) x
        exact hne hstate hcurrent (editTag_eq_nullSong hstate hcurrent _)
      simp only [parseRem_eq, addTag_eq] at hsong ⊢
      by_cases hrem : command = "REM".toList
      · rw [if_pos hrem] at hsong ⊢
        rw [if_pos hrem]
        exact hedit _ hsong
      rw [if_neg hrem] at hsong ⊢
      rw [if_neg hrem]
      by_cases hperformer : command = "PERFORMER".toList
      · rw [if_pos hperformer] at hsong ⊢
        rw [if_pos hperformer]
        exact hedit _ hsong
      rw [if_neg hperformer] at hsong ⊢
      rw [if_neg hperformer]
      by_cases htitle : command = "TITLE".toList
      · rw [if_pos htitle] at hsong ⊢
        rw [if_pos htitle]
        exact hedit _ hsong
      rw [if_neg htitle, if_neg htitle]
      -- the other commands do not edit a tag
      split
      · rw [commit_bind_comm hfinished hended]
        cases nextPair nextValue rest <;> rfl
      · split
        · rfl
        · split
          · rw [commit_bind_comm hfinished hended]
            cases nextPair nextToken rest <;> rfl
          · split
            · rfl
            · split
              · cases nextPair nextToken rest <;> rfl
              · rfl

end Commands

/-! ### Reading a line -/

def OtherIn (state : State) (p : Text) : Prop :=
  ∀ command rest, nextToken p = .ok (some command, rest) →
    command ≠ "FILE".toList ∧ (command = "TRACK".toList → state = .ignoreFile)

def Command.ReadFrom (state : State) (p : Text) : Command → Prop
  | .file args => ∃ rest, nextToken p = .ok (some "FILE".toList, rest) ∧
      nextPair nextValue rest = .ok args
  | .track args => state ≠ .ignoreFile ∧ ∃ rest, nextToken p = .ok (some "TRACK".toList, rest) ∧
      nextPair nextToken rest = .ok args
  | .index _ => state = .track ∧ OtherIn state p
  | _ => OtherIn state p

section Failures

variable (p : Text)

theorem nextWord_within : (nextWord p).Within (· = .overrun) fun _ => True := by
  rw [nextWord]
  split
  · exact .error rfl
  · exact .ok trivial

theorem nextQuoted_within : (nextQuoted p).Within (· = .overrun) fun _ => True := by
  rw [nextQuoted]
  split
  · exact .error rfl
  · exact .ok trivial

theorem nextToken_within : (nextToken p).Within (· = .overrun) fun _ => True := by
  rw [nextToken]
  split
  · exact .error rfl
  · refine .branch (.ok trivial) ?_
    refine (nextWord_within _).bind fun _ _ => ?_
    exact .ok trivial

theorem nextValue_within : (nextValue p).Within (· = .overrun) fun _ => True := by
  rw [nextValue]
  split
  · exact .error rfl
  · next c rest _ =>
    have hvalue : (if c = '"' then nextQuoted rest else nextWord (c :: rest)).Within (· = .overrun)
        fun _ => True := .branch (nextQuoted_within _) <| nextWord_within _
    refine .branch (.ok trivial) ?_
    refine hvalue.bind fun _ _ => ?_
    exact .ok trivial

theorem nextPair_within {next : Text → Except CueFault (Option Text × Text)}
    (hnext : ∀ p, (next p).Within (· = .overrun) fun _ => True) :
    (nextPair next p).Within (· = .overrun) fun _ => True := by
  refine (hnext p).bind fun r _ => ?_
  obtain ⟨first, rest⟩ := r
  cases first with
  | none => exact .ok trivial
  | some first =>
    refine (nextToken_within rest).bind fun _ _ => ?_
    exact .ok trivial

theorem nextPair_map_within {next : Text → Except CueFault (Option Text × Text)} {p : Text}
    {mk : Option (Text × Text) → Command} {P : Command → Prop}
    (hnext : ∀ p, (next p).Within (· = .overrun) fun _ => True)
    (h : ∀ args, nextPair next p = .ok args → P (mk args)) :
    (mk <$> nextPair next p).Within (· = .overrun) P := by
  have hpair : (nextPair next p).Within (· = .overrun) fun args => nextPair next p = .ok args :=
    ⟨(nextPair_within p hnext).1, fun args hargs => hargs⟩
  exact hpair.map h

theorem valueItem_within (type : TagType) :
    (valueItem type p).Within (· = .overrun) fun _ => True := by
  refine (nextValue_within p).bind fun _ _ => ?_
  exact .ok trivial

theorem remItem_within : (remItem p).Within (· = .overrun) fun _ => True := by
  refine (nextToken_within p).bind fun r _ => ?_
  obtain ⟨type, rest⟩ := r
  dsimp only
  split
  · exact .ok trivial
  · exact valueItem_within rest _

/-- **Reading a line fails only at the end of the memory**, and a command is what the line says. -/
theorem parse_within (state : State) :
    (parse state p).Within (· = .overrun) fun c => c.ReadFrom state p := by
  cases hcommand : nextToken p with
  | error e =>
    have he := (nextToken_within p).1 e hcommand
    rw [parse, hcommand]
    exact .error he
  | ok r =>
    obtain ⟨command, rest⟩ := r
    rw [parse, hcommand, ok_bind]
    cases command with
    | none =>
      refine .ok fun command rest' h => ?_
      rw [hcommand] at h
      cases h
    | some command =>
      -- a line that is neither a file nor a track
      have hother : command ≠ "FILE".toList → (command = "TRACK".toList → state = .ignoreFile) →
          OtherIn state p := by
        intro hfile htrack command' rest' h
        rw [hcommand] at h
        cases h
        exact ⟨hfile, htrack⟩
      have hskip : OtherIn state p → (ok Command.skip : Except CueFault Command).Within
          (· = .overrun) fun c => c.ReadFrom state p := fun hother => .ok hother
      -- the lines that edit a tag, if there is one to edit
      have hedit : ∀ {word : Text} {c : Prop} [Decidable c]
          {x : Except CueFault (Option (TagType × Text))}, word ≠ "FILE".toList →
          word ≠ "TRACK".toList → x.Within (· = .overrun) (fun _ => True) → command = word →
          (if c then Command.edit <$> x else ok Command.skip).Within (· = .overrun)
            fun c => c.ReadFrom state p := by
        intro word c _ x hfile htrack hx h
        have hother := hother (h ▸ hfile) fun ht => absurd (h.symm.trans ht) htrack
        exact .branch (hx.map fun _ _ => hother) <| hskip hother
      refine .ite (hedit (by decide) (by decide) (remItem_within rest)) fun _ => ?_
      refine .ite (hedit (by decide) (by decide) (valueItem_within rest _)) fun _ => ?_
      refine .ite (hedit (by decide) (by decide) (valueItem_within rest _)) fun _ => ?_
      refine .ite (fun h => ?_) fun hfile => ?_
      · subst h
        exact nextPair_map_within nextValue_within fun args hargs => ⟨rest, hcommand, hargs⟩
      refine .ite (fun h => hskip (hother hfile fun _ => h)) fun hstate => ?_
      refine .ite (fun h => ?_) fun htrack => ?_
      · subst h
        exact nextPair_map_within nextToken_within fun args hargs =>
          ⟨hstate, rest, hcommand, hargs⟩
      have hother := hother hfile fun h => absurd h htrack
      refine .branch (hskip hother) <| .ite (fun h => ?_) fun _ => hskip hother
      exact nextPair_map_within nextToken_within fun args _ => ⟨h.1, hother⟩

end Failures

namespace Parser

variable {s : Parser}

theorem commit_yields : s.commit.Yields fun s' => s' = s.committed := by
  refine .branch .error ?_
  exact .branch .error <| .ok rfl

@[simp]
theorem file_current (args : Option (Text × Text)) : (s.file args).current = s.current := by
  rw [file.eq_def]
  split
  · rfl
  · split <;> rfl

@[simp]
theorem file_ended (args : Option (Text × Text)) : (s.file args).ended = s.ended := by
  rw [file.eq_def]
  split
  · rfl
  · split <;> rfl

theorem updatePrevious_eq (s : Parser) (ms : ℕ) : s.updatePrevious ms = { s with
      previous := (s.updatePrevious ms).previous
      lastUpdated := (s.updatePrevious ms).lastUpdated } := by
  rw [updatePrevious]
  split
  · rfl
  · split <;> rfl

end Parser

section Read

variable [Utf8] {ignored : TagType → Bool} {s : Parser} {r : Reader} {line : Line}

theorem Parser.apply_yields_ended (c : Command) :
    (s.apply ignored c).Yields fun s' => s'.ended = s.ended := by
  cases c with
  | skip => exact .ok rfl
  | edit item =>
    rw [apply, editTag.eq_def]
    split
    · exact .ok rfl
    · split
      · exact .error
      · exact .ok rfl
    · exact .ok rfl
  | file args =>
    refine commit_yields.bind fun s' hs' => .ok ?_
    rw [hs', file_ended, committed_ended]
  | track args =>
    refine commit_yields.bind fun s' hs' => ?_
    rw [track.eq_def, ← committed_ended s, ← hs']
    split
    · exact .ok rfl
    · refine .branch (.ok rfl) ?_
      split
      · exact .error
      · exact .branch .error <| .ok rfl
  | index args =>
    rw [apply, index.eq_def]
    split
    · exact .ok rfl
    · refine .branch (.ok rfl) ?_
      dsimp only
      rw [updatePrevious_eq]
      split
      · exact .error
      · exact .ok rfl

def Reader.apply (ignored : TagType → Bool) (r : Reader) (c : Command) :
    Except CueFault Reader := do
  let s ← r.parser.apply ignored c
  .ok ⟨{ s with finished := none }, r.delivered ++ s.finished.toList⟩

theorem Reader.apply_yields (c : Command) : (r.apply ignored c).Yields fun r' =>
    r'.parser.finished = none ∧ r'.parser.ended = r.parser.ended :=
  (Parser.apply_yields_ended c).bind fun _ hended => .ok ⟨rfl, hended⟩

/-- **A line is read, carried out, and a song is delivered.** -/
theorem Reader.read_eq (hfinished : r.parser.finished = none) (hended : r.parser.ended = false)
    (hsong : r.parser.state = .track → r.parser.current = none →
      r.parser.feed2 ignored line.memory ≠ .error .nullSong) :
    r.read ignored line = parse r.parser.state line.memory >>= r.apply ignored := by
  rw [read, Parser.feed2_eq hfinished hended hsong]
  cases parse r.parser.state line.memory with
  | error e => rfl
  | ok c =>
    rw [ok_bind, ok_bind, apply]
    cases hs : r.parser.apply ignored c with
    | error e => rfl
    | ok s =>
      have hended' : s.ended = false := (Parser.apply_yields_ended c s hs).trans hended
      rw [ok_bind, ok_bind, take, Parser.get, hended', if_neg fun h => absurd h.2
        Bool.false_ne_true]
      rfl

end Read

/-! ### Songs that are not there -/

/-- A fault other than the use of a `NULL` pointer. -/
def NotNull (e : CueFault) : Prop :=
  e ≠ .nullSong ∧ e ≠ .nullFilename

/-- **In a track there is a song.** -/
def Parser.HasSong (s : Parser) : Prop :=
  s.state = .track → s.current ≠ none

def Command.SafeIn (s : Parser) : Command → Prop
  | .file args => s.state = .track → args ≠ none
  | .track args => (s.state = .track → args ≠ none) ∧
      ∀ nr, args = some (nr, "AUDIO".toList) → s.filename ≠ none
  | _ => True

/-- The line uses no song and no file name that is not there. -/
def Line.Safe (line : Line) (r : Reader) : Prop :=
  ∀ c, parse r.parser.state line.memory = .ok c → c.SafeIn r.parser

section HasSong

variable [Utf8] {ignored : TagType → Bool} {s : Parser} {r : Reader} {line : Line}

/-- **A command keeps the song if and only if it is safe.** -/
theorem Parser.apply_within_iff (hfinished : s.finished = none) (hended : s.ended = false)
    (hsong : s.HasSong) {c : Command} {p : Text} (hread : c.ReadFrom s.state p) :
    (s.apply ignored c).Within NotNull HasSong ↔ c.SafeIn s := by
  cases c with
  | skip => exact iff_of_true (.ok hsong) trivial
  | edit item =>
    refine iff_of_true ?_ trivial
    rw [apply, editTag.eq_def]
    split
    · next hstate =>
      refine .ok fun htrack => ?_
      rw [hstate] at htrack
      cases htrack
    · next hstate =>
      split
      · next hcurrent => exact absurd hcurrent (hsong hstate)
      · exact .ok fun _ => some_ne_none _
    · exact .ok hsong
  | file args =>
    rw [apply, commit_eq hfinished hended, ok_bind, within_ok, HasSong, file_current,
      committed_current]
    cases args with
    | none =>
      rw [file, committed_state]
      exact forall_congr' fun _ => iff_of_false (not_not.mpr rfl) (not_not.mpr rfl)
    | some args =>
      refine iff_of_true (fun htrack => absurd htrack ?_) fun _ => some_ne_none args
      rw [file]
      split <;> exact State.noConfusion
  | track args =>
    rw [apply, commit_eq hfinished hended, ok_bind]
    cases args with
    | none =>
      rw [track, within_ok, HasSong, committed_current, committed_state]
      refine ⟨fun h => ⟨fun htrack => absurd rfl (h htrack), ?_⟩, fun h htrack =>
        absurd rfl (h.1 htrack)⟩
      rintro nr ⟨⟩
    | some args =>
      obtain ⟨nr, type⟩ := args
      rw [track, committed_filename]
      split
      · next htype =>
        refine iff_of_true (.ok ?_) ⟨fun _ => some_ne_none _, ?_⟩
        · rintro ⟨⟩
        · rintro _ ⟨⟩
          exact absurd rfl htype
      · next htype =>
        rw [not_not] at htype
        subst htype
        split
        · next hfilename =>
          rw [within_error]
          exact iff_of_false (fun h => h.2 rfl) fun h => h.2 nr rfl hfilename
        · next filename hfilename =>
          refine iff_of_true (.branch ?_ ?_) ⟨fun _ => some_ne_none _, ?_⟩
          · exact .error ⟨CueFault.noConfusion, CueFault.noConfusion⟩
          · exact .ok fun _ => some_ne_none _
          · intro _ _
            rw [hfilename]
            exact some_ne_none _
  | index args =>
    refine iff_of_true ?_ trivial
    have hcurrent := hsong hread.1
    cases args with
    | none => exact .ok hsong
    | some args =>
      rw [apply, index]
      refine .branch (.ok hsong) ?_
      dsimp only
      rw [updatePrevious_eq]
      split
      · next hnone => exact absurd hnone hcurrent
      · exact .ok fun _ => some_ne_none _

/-- What holds between two lines. -/
structure Reader.Inv (r : Reader) : Prop where
  song : r.parser.HasSong
  finished : r.parser.finished = none
  ended : r.parser.ended = false

theorem Reader.Inv.read_within_iff (h : r.Inv) :
    (r.read ignored line).Within NotNull (fun r => r.parser.HasSong) ↔ line.Safe r := by
  have hsong : r.parser.state = .track → r.parser.current = none →
      r.parser.feed2 ignored line.memory ≠ .error .nullSong :=
    fun hstate hcurrent => absurd hcurrent (h.song hstate)
  rw [Reader.read_eq h.finished h.ended hsong, Line.Safe]
  have hparse := parse_within line.memory r.parser.state
  cases hc : parse r.parser.state line.memory with
  | error e =>
    rw [hc, within_error] at hparse
    refine iff_of_true (.error ?_) fun c hc => by cases hc
    rw [hparse]
    exact ⟨CueFault.noConfusion, CueFault.noConfusion⟩
  | ok c =>
    rw [hc, within_ok] at hparse
    have hiff : (r.parser.apply ignored c).Within NotNull Parser.HasSong ↔ c.SafeIn r.parser :=
      Parser.apply_within_iff h.finished h.ended h.song hparse
    rw [ok_bind, apply, within_bind_ok]
    refine hiff.trans ⟨fun hsafe c' hc' => ?_, fun hsafe => hsafe c rfl⟩
    obtain rfl := ok.inj hc'
    exact hsafe

theorem Reader.Inv.read_within (h : r.Inv) (hsafe : line.Safe r) :
    (r.read ignored line).Within NotNull Inv := by
  have hwithin : (r.read ignored line).Within NotNull fun r => r.parser.HasSong :=
    h.read_within_iff.mpr hsafe
  have hyields : (r.read ignored line).Yields fun r' =>
      r'.parser.finished = none ∧ r'.parser.ended = r.parser.ended := by
    rw [Reader.read_eq h.finished h.ended fun hstate hcurrent =>
      absurd hcurrent (h.song hstate)]
    exact .after fun c => apply_yields c
  refine ⟨hwithin.1, fun r' hr' => ?_⟩
  obtain ⟨hfinished, hended⟩ := hyields r' hr'
  exact ⟨hwithin.2 r' hr', hfinished, hended.trans h.ended⟩

variable (ignored) in
/-- **When a `NULL` pointer is not used.** Whatever the lines are, and whatever stands behind them
in memory: in a track there is always a song, and a song is created with a file name only, if and
only if every line is safe where it is read. -/
theorem keepsSong_iff (lines : List Line) :
    Keeps (Reader.read ignored) NotNull (fun r => r.parser.HasSong) lines Reader.start ↔
      Follows (Reader.read ignored) Line.Safe lines Reader.start := by
  have hstart : Reader.start.Inv := by
    refine ⟨?_, rfl, rfl⟩
    rintro ⟨⟩
  exact keeps_iff (fun _ h => h.song) (fun _ _ h hsafe => h.read_within hsafe)
    (fun _ _ h hsafe hwithin => hsafe (h.read_within_iff.mp hwithin)) hstart

end HasSong

theorem not_keepsSong_file :
    ["FILE \"a.wav\" WAVE", "TRACK 01 AUDIO", "FILE \"b.wav\"", "TITLE b"].foldlM
        (fun r text => Reader.read (fun _ => false) ⟨text.toList, []⟩ r) Reader.start =
      .error .nullSong ∧
    ¬ Keeps (Reader.read fun _ => false) NotNull (fun r => r.parser.HasSong)
      (["FILE \"a.wav\" WAVE", "TRACK 01 AUDIO", "FILE \"b.wav\"", "TITLE b"].map
        fun text => ⟨text.toList, []⟩) Reader.start := by
  refine ⟨rfl, ?_⟩
  rintro ⟨-, h⟩
  obtain ⟨-, h⟩ := within_ok.mp h
  obtain ⟨-, h⟩ := within_ok.mp h
  exact within_ok.mp h |>.1 rfl rfl

end Cue

end Mpd
