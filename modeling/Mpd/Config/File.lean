import Mpd.Command.Tokenizer

/-!
# The configuration file

`config_read_file` in `conf.c` reads the configuration line by line. A line outside a block is a
known name, followed by a quoted value or, if the option is a block, by an opening brace. The lines
of a block are read by `config_read_block` up to the closing brace. Each line is one step here:
whether a block is open is part of the state. A line is what `fgets` gives, so one that is longer
than the buffer counts as several.

`tokenizer_next_word` and `tokenizer_next_string` report an error with a null pointer, and they are
asked here with `IS_ERR`, which does not take a null pointer for an error. So a line that does not
begin with a word passes a null pointer to `config_entry_get`, and a line with a name but without a
value is accepted if nothing or a comment is where the tokenizer stopped. In a block, a null pointer
is passed to `config_get_block_param` if a quoted value is where a name is expected. In all other
cases a line that is not well-formed makes `config_read_file` fail (`readsRight_iff_sound`).
-/

namespace Mpd

open List Except

namespace Conf

open Text (chug beforeNul)
open Tokenizer

/-! ### The source -/

/-- `struct config_entry`, without its parameters. -/
structure ConfigEntry where
  name : String
  repeatable : Bool
  block : Bool
  deriving DecidableEq, Repr

def configEntries : List ConfigEntry :=
  [⟨"music_directory", false, false⟩, ⟨"playlist_directory", false, false⟩,
    ⟨"follow_inside_symlinks", false, false⟩, ⟨"follow_outside_symlinks", false, false⟩,
    ⟨"db_file", false, false⟩, ⟨"sticker_file", false, false⟩, ⟨"log_file", false, false⟩,
    ⟨"pid_file", false, false⟩, ⟨"state_file", false, false⟩, ⟨"restore_paused", false, false⟩,
    ⟨"user", false, false⟩, ⟨"group", false, false⟩, ⟨"bind_to_address", true, false⟩,
    ⟨"port", false, false⟩, ⟨"log_level", false, false⟩, ⟨"zeroconf_name", false, false⟩,
    ⟨"zeroconf_enabled", false, false⟩, ⟨"password", true, false⟩,
    ⟨"default_permissions", false, false⟩, ⟨"audio_output", true, true⟩,
    ⟨"audio_output_format", false, false⟩, ⟨"mixer_type", false, false⟩,
    ⟨"replaygain", false, false⟩, ⟨"replaygain_preamp", false, false⟩,
    ⟨"replaygain_missing_preamp", false, false⟩, ⟨"replaygain_limit", false, false⟩,
    ⟨"volume_normalization", false, false⟩, ⟨"samplerate_converter", false, false⟩,
    ⟨"audio_buffer_size", false, false⟩, ⟨"buffer_before_play", false, false⟩,
    ⟨"http_proxy_host", false, false⟩, ⟨"http_proxy_port", false, false⟩,
    ⟨"http_proxy_user", false, false⟩, ⟨"http_proxy_password", false, false⟩,
    ⟨"connection_timeout", false, false⟩, ⟨"max_connections", false, false⟩,
    ⟨"max_playlist_length", false, false⟩, ⟨"max_command_list_size", false, false⟩,
    ⟨"max_output_buffer_size", false, false⟩, ⟨"filesystem_charset", false, false⟩,
    ⟨"id3v1_encoding", false, false⟩, ⟨"metadata_to_use", false, false⟩,
    ⟨"save_absolute_paths_in_playlists", false, false⟩, ⟨"decoder", true, true⟩,
    ⟨"input", true, true⟩, ⟨"gapless_mp3_playback", false, false⟩, ⟨"playlist_plugin", true, true⟩,
    ⟨"auto_update", false, false⟩, ⟨"auto_update_depth", false, false⟩,
    ⟨"despotify_user", false, false⟩, ⟨"despotify_password", false, false⟩,
    ⟨"despotify_high_bitrate", false, false⟩, ⟨"filter", true, true⟩]

def configEntryGet (name : Text) : Option ConfigEntry :=
  configEntries.find? fun entry => entry.name.toList = name

/-- `struct block_param`. -/
structure BlockParam where
  name : Text
  value : Text
  line : ℕ

/-- `struct config_param`. -/
structure ConfigParam where
  value : Option Text
  line : ℕ
  blockParams : List BlockParam

inductive ConfFault
  /-- in `config_entry_get` -/
  | nullName
  /-- in `config_get_block_param` -/
  | nullBlockName
  deriving DecidableEq, Repr

inductive Stop
  | ret (code : ℤ)
  | fault (fault : ConfFault)
  deriving DecidableEq, Repr

def atEnd : Text → Bool
  | [] => true
  | c :: _ => c = '#'

def configGetBlockParam (param : ConfigParam) (name : Text) : Option BlockParam :=
  param.blockParams.find? fun bp => name = bp.name

def configAddBlockParam (param : ConfigParam) (name value : Text) (line : ℕ) : ConfigParam :=
  { param with blockParams := param.blockParams ++ [⟨name, value, line⟩] }

def configReadNameValue (param : ConfigParam) (input : Text) (line : ℕ) :
    Except Stop ConfigParam :=
  match nextWord input with
  | (.err code, _) => .error (.ret code)
  | (name, input) =>
    match nextString input with
    | (.str value, input) =>
      if !atEnd input then .error (.ret (-MpdErr.inval.code))
      else
        match name with
        | .str name =>
          if (configGetBlockParam param name).isSome then .error (.ret (-MpdErr.dup.code))
          else .ok (configAddBlockParam param name value line)
        | _ => .error (.fault .nullBlockName)
    | (_, input) =>
      if input = [] then .error (.ret (-MpdErr.missValue.code))
      else .error (.ret (-MpdErr.inval.code))

/-- What is known between two lines: how many lines have been read, the parameters, and the block
that is open. -/
structure Reader where
  count : ℕ
  params : List (ConfigEntry × ConfigParam)
  block : Option (ConfigEntry × ConfigParam)

namespace Reader

def start : Reader where
  count := 0
  params := []
  block := none

def configReadBlock (s : Reader) (entry : ConfigEntry) (param : ConfigParam) (string : Text) :
    Except Stop Reader :=
  let line := chug string
  if atEnd line then .ok s
  else if line.head? = some '}' then
    -- end of this block
    if !atEnd (chug line.tail) then .error (.ret (-MpdErr.missValue.code))
    else .ok { s with params := s.params ++ [(entry, param)], block := none }
  else
    match configReadNameValue param line s.count with
    | .ok param => .ok { s with block := some (entry, param) }
    | .error (.ret _) => .error (.ret (-MpdErr.missValue.code))
    | .error (.fault fault) => .error (.fault fault)

def valueOf : Token → Option Text
  | .str value => some value
  | _ => none

def Redefines (s : Reader) (entry : ConfigEntry) : Prop :=
  (∃ param ∈ s.params, param.1 = entry) ∧ entry.repeatable = false
  deriving Decidable

def configReadLine (s : Reader) (string : Text) : Except Stop Reader :=
  let line := chug string
  if atEnd line then .ok s
  else
    -- the first token in each line is the name, followed by either the value or '{'
    match nextWord line with
    | (.err _, _) => .error (.ret (-MpdErr.inval.code))
    | (.null, _) => .error (.fault .nullName)
    | (.str name, line) =>
      match configEntryGet name with
      | none => .error (.ret (-MpdErr.inval.code))
      | some entry =>
        if s.Redefines entry then .error (.ret (-MpdErr.dup.code))
        else if entry.block then
          if line.head? ≠ some '{' then .error (.ret (-MpdErr.inval.code))
          else if !atEnd (chug line.tail) then .error (.ret (-MpdErr.inval.code))
          else .ok { s with block := some (entry, ⟨none, s.count, []⟩) }
        else
          match nextString line with
          | (.err _, line) =>
            .error (.ret (if line = [] then -MpdErr.missValue.code else -MpdErr.inval.code))
          | (value, line) =>
            if !atEnd line then .error (.ret (-MpdErr.inval.code))
            else .ok { s with params := s.params ++ [(entry, ⟨valueOf value, s.count, []⟩)] }

def step (string : Text) (s : Reader) : Except Stop Reader :=
  let s := { s with count := s.count + 1 }
  match s.block with
  | none => s.configReadLine (beforeNul string)
  | some (entry, param) => s.configReadBlock entry param (beforeNul string)

def readAll : List Text → Reader → Except ConfFault (ℤ × Reader)
  | [], s => .ok (if s.block.isSome then -MpdErr.missValue.code else 0, s)
  | string :: l, s =>
    match s.step string with
    | .ok s => readAll l s
    | .error (.ret code) => .ok (code, s)
    | .error (.fault fault) => .error fault

end Reader

def fgets (size : ℕ) (buffer : Text) : Text → List Text
  | [] => if buffer = [] then [] else [buffer]
  | c :: file =>
    if c = '\n' ∨ size ≤ buffer.length + 2 then (buffer ++ [c]) :: fgets size [] file
    else fgets size (buffer ++ [c]) file

def maxStringSize (pathMax : ℕ) : ℕ :=
  pathMax + 80

def linesOf (pathMax : ℕ) (file : Text) : List Text :=
  fgets (maxStringSize pathMax) [] file

def configReadFile (pathMax : ℕ) (file : Option Text) : Except ConfFault (ℤ × Reader) :=
  match file with
  | none => .ok (-MpdErr.access.code, .start)
  | some file => Reader.start.readAll (linesOf pathMax file)

/-! ### Well-formed lines -/

abbrev Named (line name rest : Text) : Prop :=
  Bare validWordFirstChar validWordChar line name rest

def Declares (line : Text) : Prop :=
  ∃ name rest entry, Named line name rest ∧ configEntryGet name = some entry ∧
    if entry.block then ∃ r, rest = '{' :: r ∧ atEnd (chug r) = true
    else ∃ value r, Enclosed rest value r ∧ atEnd r = true

inductive Unvalued : Text → Prop
  | absent {rest : Text} (h : atEnd rest = true) : Unvalued rest
  | closed {s body rest : Text} (h : Quoted s body) : Unvalued ('"' :: body ++ '"' :: '#' :: rest)
  | unclosed {s body : Text} (h : Quoted s body) (hlast : body.getLast? = some '#') :
      Unvalued ('"' :: body)

inductive Nameless : Text → Prop
  | mk {s input value rest : Text} (hs : BareStart validWordFirstChar validWordChar s)
      (h : Enclosed input value rest) (hrest : atEnd rest = true) : Nameless (s ++ input)

def Negative (stop : Stop) : Prop :=
  ∃ code < 0, stop = .ret code

namespace Reader

def Accepts (string : Text) (s : Reader) : Prop :=
  s.block.isSome = true ∨ atEnd (chug (beforeNul string)) = true ∨
    Declares (chug (beforeNul string))

def Refuses (string : Text) (s : Reader) : Prop :=
  ¬ s.Accepts string → ∃ code < 0, s.step string = .error (.ret code)

def Valued (s : Reader) : Prop :=
  ∀ p ∈ s.params, p.1.block = false → p.2.value.isSome = true

def SoundOutside (s : Reader) (line : Text) : Prop :=
  ∃ name rest, Named line name rest ∧ ∀ entry, configEntryGet name = some entry →
    entry.block = false → ¬ s.Redefines entry → ¬ Unvalued rest

/-- **The condition on a line**: outside a block it is sound, and in a block there is no value
without a name. -/
def Sound (string : Text) (s : Reader) : Prop :=
  let line := chug (beforeNul string)
  atEnd line = true ∨
    match s.block with
    | none => s.SoundOutside line
    | some _ => ¬ Nameless line

end Reader

/-- **The file is read right.** No null pointer is used for a name. After success each line is
well-formed and the values are there, and a line that is not well-formed makes it return an
error. -/
structure ReadsRight (pathMax : ℕ) (file : Option Text) : Prop where
  returns : (configReadFile pathMax file).Succeeds fun r => r.1 = 0 ∨ r.1 < 0
  accepted (s : Reader) (h : configReadFile pathMax file = .ok (0, s)) :
    (∀ text ∈ file, Follows Reader.step Reader.Accepts (linesOf pathMax text) .start) ∧ s.Valued
  refused : ∀ text ∈ file, Follows Reader.step Reader.Refuses (linesOf pathMax text) .start

/-! ### The tokenizers -/

theorem unvalued_iff {rest : Text} :
    Unvalued rest ↔ ∃ cursor, nextString rest = (.null, cursor) ∧ atEnd cursor = true := by
  constructor
  · rintro (h | @⟨s, body, tail, h⟩ | ⟨h, hlast⟩)
    · refine ⟨rest, ?_, h⟩
      cases rest with
      | nil => rfl
      | cons c rest =>
        obtain rfl : c = '#' := of_decide_eq_true h
        rfl
    · refine ⟨'#' :: tail, ?_, rfl⟩
      rw [cons_append, nextString, if_neg (not_not.mpr rfl), copyString_append h, copyString_close]
      rfl
    · refine ⟨['#'], ?_, rfl⟩
      rw [nextString, if_neg (not_not.mpr rfl), copyString_unclosed h, hlast]
      rfl
  · rintro ⟨cursor, h, hcursor⟩
    cases rest with
    | nil => exact .absent rfl
    | cons c input =>
      rw [nextString] at h
      split at h
      · cases h
        exact .absent hcursor
      next hquote =>
      obtain rfl := not_not.mp hquote
      obtain ⟨s, body, hs, ⟨rest, rfl⟩ | rfl | rfl⟩ := exists_quoted input
      · rw [copyString_append hs, copyString_close] at h
        cases rest with
        | nil => cases h
        | cons c rest =>
          rw [closeString] at h
          split at h
          · cases h
            obtain rfl : c = '#' := of_decide_eq_true hcursor
            exact .closed hs
          · cases h
      · rw [copyString_unclosed hs] at h
        cases h
        refine .unclosed hs ?_
        obtain hnone | ⟨c, hlast⟩ := Option.eq_none_or_eq_some input.getLast?
        · rw [hnone] at hcursor
          cases hcursor
        · rw [hlast, Option.getD_some] at hcursor
          rw [hlast, show c = '#' from of_decide_eq_true hcursor]
      · rw [copyString_append hs] at h
        cases h
        cases hcursor

theorem nameless_iff {line : Text} :
    Nameless line ↔ ∃ cursor value rest, nextWord line = (.null, cursor) ∧
      nextString cursor = (.str value, rest) ∧ atEnd rest = true := by
  constructor
  · rintro ⟨hs, h, hrest⟩
    refine ⟨_, _, _, ?_, nextString_eq_str_iff.mpr h, hrest⟩
    cases h with
    | mk _ _ =>
      exact nextBare_bareStart (fun _ => isSpace_of_validWordChar) hs rfl rfl rfl
  · rintro ⟨cursor, value, rest, hword, hstring, hrest⟩
    obtain ⟨s, hs, rfl⟩ := exists_bareStart (fun _ h => by cases h) hword
    exact .mk hs (nextString_eq_str_iff.mp hstring) hrest

/-! ### A line outside a block -/

namespace Reader

variable {s : Reader} {line : Text}

theorem SoundOutside.of_declares (h : Declares line) : s.SoundOutside line := by
  obtain ⟨name, rest, entry, hname, hentry, hrest⟩ := h
  refine ⟨name, rest, hname, fun entry' hentry' hblock _ hunvalued => ?_⟩
  obtain rfl := Option.some.inj (hentry.symm.trans hentry')
  rw [if_neg (by rw [hblock]; decide)] at hrest
  obtain ⟨value, r, henclosed, -⟩ := hrest
  obtain ⟨cursor, hstring, -⟩ := unvalued_iff.mp hunvalued
  rw [nextString_eq_str_iff.mpr henclosed] at hstring
  cases hstring

inductive LineReads (s : Reader) (line : Text) : Except Stop Reader → Prop
  | blank (h : atEnd line = true) : LineReads s line (.ok s)
  | unnamed (hline : atEnd line = false) (h : ∀ name rest, ¬ Named line name rest) :
      LineReads s line (.error (.fault .nullName))
  | opened {entry : ConfigEntry} (h : Declares line) (hblock : entry.block = true) :
      LineReads s line (.ok { s with block := some (entry, ⟨none, s.count, []⟩) })
  | valued {entry : ConfigEntry} {value : Text} (h : Declares line) :
      LineReads s line (.ok { s with params := s.params ++ [(entry, ⟨some value, s.count, []⟩)] })
  | unvalued {entry : ConfigEntry} (hline : atEnd line = false) (h : ¬ s.SoundOutside line) :
      LineReads s line (.ok { s with params := s.params ++ [(entry, ⟨none, s.count, []⟩)] })
  | refused {code : ℤ} (hcode : code < 0) (h : s.SoundOutside line) :
      LineReads s line (.error (.ret code))

theorem soundOutside_iff {name rest : Text} {entry : ConfigEntry}
    (hword : nextWord line = (.str name, rest)) (hentry : configEntryGet name = some entry) :
    s.SoundOutside line ↔
      (entry.block = false → ¬ s.Redefines entry → ¬ Unvalued rest) := by
  constructor
  · rintro ⟨name', rest', hname, h⟩
    obtain ⟨hname', rfl⟩ := nextWord_eq_of_bare hword hname
    cases hname'
    exact h entry hentry
  · refine fun h => ⟨name, rest, nextWord_eq_str_iff.mp hword, fun entry' hentry' => ?_⟩
    obtain rfl := Option.some.inj (hentry.symm.trans hentry')
    exact h

/-- **A line of `config_read_file`.** -/
theorem configReadLine_reads (s : Reader) (string : Text) :
    LineReads s (chug string) (s.configReadLine string) := by
  rw [configReadLine]
  split
  · next hline => exact .blank hline
  next hline =>
  rw [Bool.not_eq_true] at hline
  obtain ⟨name, rest, hword⟩ | ⟨cursor, hword⟩ := nextWord_cases (chug string)
  · have hname : Named (chug string) name rest := nextWord_eq_str_iff.mp hword
    rw [hword]
    dsimp only
    split
    · next hentry =>
      refine .refused (by decide) ⟨name, rest, hname, fun entry h => ?_⟩
      rw [hentry] at h
      cases h
    next entry hentry =>
    have hsound := soundOutside_iff (s := s) hword hentry
    split
    · next hredefines => exact .refused (by decide) (hsound.mpr fun _ h => absurd hredefines h)
    next hredefines =>
    split
    · next hblock =>
      have hopens : s.SoundOutside (chug string) :=
        hsound.mpr fun h => absurd (hblock.symm.trans h) (by decide)
      split
      · exact .refused (by decide) hopens
      next hbrace =>
      split
      · exact .refused (by decide) hopens
      next hend =>
      obtain ⟨r, rfl⟩ := head?_eq_some_iff.mp (not_not.mp hbrace)
      rw [Bool.not_eq_true, Bool.not_eq_false'] at hend
      refine .opened ⟨name, _, entry, hname, hentry, ?_⟩ hblock
      rw [if_pos hblock]
      exact ⟨r, rfl, hend⟩
    next hblock =>
    rw [Bool.not_eq_true] at hblock
    obtain ⟨value, r, henclosed, hstring⟩ | ⟨cursor, -, hstring⟩ := nextString_cases rest
    · rw [hstring]
      dsimp only
      split
      · refine .refused (by decide) (hsound.mpr fun _ _ hunvalued => ?_)
        obtain ⟨cursor, hnull, -⟩ := unvalued_iff.mp hunvalued
        rw [hstring] at hnull
        cases hnull
      next hend =>
      rw [Bool.not_eq_true, Bool.not_eq_false'] at hend
      refine .valued ⟨name, rest, entry, hname, hentry, ?_⟩
      rw [if_neg (by rw [hblock]; decide)]
      exact ⟨value, r, henclosed, hend⟩
    · rw [hstring]
      dsimp only
      split
      · next hend =>
        refine .refused (by decide) (hsound.mpr fun _ _ hunvalued => ?_)
        obtain ⟨cursor', hnull, hend'⟩ := unvalued_iff.mp hunvalued
        rw [hstring] at hnull
        cases hnull
        rw [hend'] at hend
        cases hend
      next hend =>
      rw [Bool.not_eq_true, Bool.not_eq_false'] at hend
      refine .unvalued hline fun h => ?_
      exact hsound.mp h hblock hredefines (unvalued_iff.mpr ⟨cursor, hstring, hend⟩)
  · rw [hword]
    refine .unnamed hline fun name rest hname => ?_
    rw [nextWord_eq_str_iff.mpr hname] at hword
    cases hword

theorem LineReads.within_iff {x : Except Stop Reader} (h : LineReads s line x) :
    (x.Within Negative fun _ => atEnd line = true ∨ Declares line) ↔
      atEnd line = true ∨ s.SoundOutside line := by
  cases h with
  | blank h =>
    rw [within_ok]
    exact iff_of_true (.inl h) (.inl h)
  | unnamed hline h =>
    rw [within_error, hline]
    refine iff_of_false ?_ ?_
    · rintro ⟨code, -, hstop⟩
      cases hstop
    · rintro (hend | ⟨name, rest, hname, -⟩)
      · cases hend
      · exact h name rest hname
  | opened h hblock | valued h =>
    rw [within_ok]
    exact iff_of_true (.inr h) (.inr (.of_declares h))
  | unvalued hline h =>
    rw [within_ok, hline, or_iff_right (by decide), or_iff_right (by decide)]
    exact iff_of_false (fun hdeclares => h (.of_declares hdeclares)) h
  | refused hcode h =>
    rw [within_error]
    exact iff_of_true ⟨_, hcode, rfl⟩ (.inr h)

/-! ### A line in a block -/

/-- **`config_read_name_value`** uses a null pointer exactly for a value without a name. -/
theorem configReadNameValue_cases (param : ConfigParam) (input : Text) (count : ℕ) :
    (Nameless input ∧ configReadNameValue param input count = .error (.fault .nullBlockName)) ∨
    ¬ Nameless input ∧ ((∃ param', configReadNameValue param input count = .ok param') ∨
      ∃ code, configReadNameValue param input count = .error (.ret code)) := by
  rw [configReadNameValue, nameless_iff]
  obtain ⟨name, rest, hword⟩ | ⟨rest, hword⟩ := nextWord_cases input
  · right
    rw [hword]
    refine ⟨?_, ?_⟩
    · rintro ⟨_, _, _, hnull, -⟩
      cases hnull
    dsimp only
    obtain ⟨value, r, -, hstring⟩ | ⟨cursor, -, hstring⟩ := nextString_cases rest
    · rw [hstring]
      dsimp only
      split
      · exact .inr ⟨_, rfl⟩
      split
      · exact .inr ⟨_, rfl⟩
      · exact .inl ⟨_, rfl⟩
    · rw [hstring]
      dsimp only
      split
      · exact .inr ⟨_, rfl⟩
      · exact .inr ⟨_, rfl⟩
  · rw [hword]
    dsimp only
    obtain ⟨value, r, -, hstring⟩ | ⟨cursor, -, hstring⟩ := nextString_cases rest
    · rw [hstring]
      dsimp only
      split
      · next hend =>
        refine .inr ⟨?_, .inr ⟨_, rfl⟩⟩
        rintro ⟨_, _, _, hnull, hstring', hend'⟩
        cases hnull
        rw [hstring] at hstring'
        cases hstring'
        rw [hend'] at hend
        cases hend
      · next hend =>
        rw [Bool.not_eq_true, Bool.not_eq_false'] at hend
        exact .inl ⟨⟨rest, value, r, rfl, hstring, hend⟩, rfl⟩
    · rw [hstring]
      dsimp only
      refine .inr ⟨?_, .inr ?_⟩
      · rintro ⟨_, _, _, hnull, hstring', -⟩
        cases hnull
        rw [hstring] at hstring'
        cases hstring'
      · split
        · exact ⟨_, rfl⟩
        · exact ⟨_, rfl⟩

variable {entry : ConfigEntry} {param : ConfigParam}

inductive BlockReads (s : Reader) (entry : ConfigEntry) (param : ConfigParam) (line : Text) :
    Except Stop Reader → Prop
  | blank (h : atEnd line = true) : BlockReads s entry param line (.ok s)
  | closed (h : ¬ Nameless line) : BlockReads s entry param line
        (.ok { s with params := s.params ++ [(entry, param)], block := none })
  | added {param' : ConfigParam} (h : ¬ Nameless line) :
      BlockReads s entry param line (.ok { s with block := some (entry, param') })
  | nameless (hline : atEnd line = false) (h : Nameless line) :
      BlockReads s entry param line (.error (.fault .nullBlockName))
  | refused {code : ℤ} (hcode : code < 0) (h : ¬ Nameless line) :
      BlockReads s entry param line (.error (.ret code))

theorem not_nameless_brace (h : line.head? = some '}') : ¬ Nameless line := by
  rintro ⟨hs, henclosed, -⟩
  rename_i start input value rest
  cases start with
  | nil =>
    cases henclosed
    cases h
  | cons c start =>
    obtain rfl : c = '}' := Option.some.inj h
    exact absurd (hs.1 _ rfl) (by decide)

/-- **A line of `config_read_block`.** -/
theorem configReadBlock_reads (s : Reader) (entry : ConfigEntry) (param : ConfigParam)
    (string : Text) :
    BlockReads s entry param (chug string) (s.configReadBlock entry param string) := by
  rw [configReadBlock]
  split
  · next hline => exact .blank hline
  next hline =>
  rw [Bool.not_eq_true] at hline
  split
  · next hbrace =>
    split
    · exact .refused (by decide) (not_nameless_brace hbrace)
    · exact .closed (not_nameless_brace hbrace)
  · obtain ⟨h, hread⟩ | ⟨h, ⟨param', hread⟩ | ⟨code, hread⟩⟩ :=
      configReadNameValue_cases param (chug string) s.count
    · rw [hread]
      exact .nameless hline h
    · rw [hread]
      exact .added h
    · rw [hread]
      exact .refused (by decide) h

theorem BlockReads.within_iff {x : Except Stop Reader} (h : BlockReads s entry param line x) :
    (x.Within Negative fun _ => True) ↔ atEnd line = true ∨ ¬ Nameless line := by
  cases h with
  | blank h =>
    rw [within_ok]
    exact iff_of_true trivial (.inl h)
  | closed h | added h =>
    rw [within_ok]
    exact iff_of_true trivial (.inr h)
  | nameless hline h =>
    rw [within_error, hline, or_iff_right (by decide)]
    refine iff_of_false ?_ (not_not.mpr h)
    rintro ⟨code, -, hstop⟩
    cases hstop
  | refused hcode h =>
    rw [within_error]
    exact iff_of_true ⟨_, hcode, rfl⟩ (.inr h)

/-! ### The file -/

variable {string : Text} {l : List Text}

/-- The values are there, and what is open is a block. -/
structure Inv (s : Reader) : Prop where
  valued : s.Valued
  block : ∀ b ∈ s.block, b.1.block = true

theorem inv_start : start.Inv where
  valued _ h := absurd h not_mem_nil
  block _ h := by cases h

theorem step_reads (string : Text) (s : Reader) : (s.block = none ∧
      LineReads { s with count := s.count + 1 } (chug (beforeNul string)) (s.step string)) ∨
    ∃ entry param, s.block = some (entry, param) ∧
      BlockReads { s with count := s.count + 1 } entry param (chug (beforeNul string))
        (s.step string) := by
  rw [step]
  split
  · next hblock => exact .inl ⟨hblock, configReadLine_reads _ _⟩
  · next entry param hblock => exact .inr ⟨entry, param, hblock, configReadBlock_reads _ _ _ _⟩

/-- **The condition is exact**: a line is read without a fault, and is well-formed if it is
accepted, if and only if it is sound. -/
theorem step_within_iff : ((s.step string).Within Negative fun _ => s.Accepts string) ↔
    s.Sound string := by
  obtain ⟨hblock, hreads⟩ | ⟨entry, param, hblock, hreads⟩ := step_reads string s
  · rw [Accepts, Sound, hblock, Option.isSome_none, or_iff_right (by decide)]
    exact hreads.within_iff
  · rw [Accepts, Sound, hblock, Option.isSome_some, eq_self, true_or]
    exact hreads.within_iff

theorem step_negative {code : ℤ} (h : s.step string = .error (.ret code)) : code < 0 := by
  obtain ⟨-, hreads⟩ | ⟨entry, param, -, hreads⟩ := step_reads string s
  · rw [h] at hreads
    cases hreads with
    | refused hcode => exact hcode
  · rw [h] at hreads
    cases hreads with
    | refused hcode => exact hcode

theorem Valued.append (h : s.Valued) (hparam : entry.block = false → param.value.isSome = true) :
    ∀ p ∈ s.params ++ [(entry, param)], p.1.block = false → p.2.value.isSome = true := by
  intro p hp
  obtain hp | hp := mem_append.mp hp
  · exact h p hp
  · obtain rfl := mem_singleton.mp hp
    exact hparam

theorem LineReads.inv {x : Except Stop Reader} (hreads : LineReads s line x) (hinv : s.Inv)
    (hsound : atEnd line = true ∨ s.SoundOutside line) : x.Yields Inv := by
  cases hreads with
  | blank => exact .ok hinv
  | unnamed => exact .error
  | opened _ hblock =>
    refine .ok ⟨hinv.valued, fun b hb => ?_⟩
    cases hb
    exact hblock
  | valued => exact .ok ⟨hinv.valued.append fun _ => rfl, hinv.block⟩
  | unvalued hline h =>
    rw [hline, or_iff_right (by decide)] at hsound
    exact absurd hsound h
  | refused => exact .error

theorem BlockReads.inv {x : Except Stop Reader} (hreads : BlockReads s entry param line x)
    (hinv : s.Inv) (hblock : entry.block = true) : x.Yields Inv := by
  cases hreads with
  | blank => exact .ok hinv
  | closed =>
    refine .ok ⟨hinv.valued.append fun h => ?_, fun b hb => by cases hb⟩
    exact absurd (hblock.symm.trans h) (by decide)
  | added =>
    refine .ok ⟨hinv.valued, fun b hb => ?_⟩
    cases hb
    exact hblock
  | nameless => exact .error
  | refused => exact .error

theorem step_inv (hinv : s.Inv) (hsound : s.Sound string) : (s.step string).Yields Inv := by
  have hinv' : Inv { s with count := s.count + 1 } := ⟨hinv.valued, hinv.block⟩
  obtain ⟨hblock, hreads⟩ | ⟨entry, param, hblock, hreads⟩ := step_reads string s
  · rw [Sound, hblock] at hsound
    exact hreads.inv hinv' hsound
  · exact hreads.inv hinv' (hinv.block _ hblock)

/-- **A sound file** is read to its end, or an error is returned. -/
theorem readAll_of_sound (hinv : s.Inv) (h : Follows step Sound l s) :
    (readAll l s).Succeeds fun r =>
      r.1 < 0 ∨ r.1 = 0 ∧ Follows step Accepts l s ∧ r.2.Valued := by
  induction l generalizing s with
  | nil =>
    rw [readAll, succeeds_ok]
    cases hblock : s.block with
    | none => exact .inr ⟨rfl, trivial, hinv.valued⟩
    | some b => exact .inl (show -MpdErr.missValue.code < 0 by decide)
  | cons string l ih =>
    obtain ⟨hsound, hrest⟩ := h
    have hstep := step_within_iff.mpr hsound
    rw [readAll]
    cases hs : s.step string with
    | ok s' =>
      refine (ih (step_inv hinv hsound s' hs) (hrest s' hs)).mono fun r hr => hr.imp_right ?_
      rintro ⟨hzero, hfollows, hvalued⟩
      refine ⟨hzero, ⟨hstep.2 s' hs, fun t ht => ?_⟩, hvalued⟩
      cases hs.symm.trans ht
      exact hfollows
    | error stop =>
      obtain ⟨code, hcode, rfl⟩ := hstep.1 stop hs
      exact .ok (.inl hcode)

theorem refuses_of_sound (h : s.Sound string) : s.Refuses string := by
  intro haccepts
  have hstep := step_within_iff.mpr h
  cases hs : s.step string with
  | ok s' => exact absurd (hstep.2 s' hs) haccepts
  | error stop =>
    obtain ⟨code, hcode, rfl⟩ := hstep.1 stop hs
    exact ⟨code, hcode, rfl⟩

theorem sound_of_readAll (h : (readAll l s).Succeeds fun _ => True)
    (hrefuses : Follows step Refuses l s) : Follows step Sound l s := by
  induction l generalizing s with
  | nil => trivial
  | cons string l ih =>
    obtain ⟨hline, hrest⟩ := hrefuses
    rw [readAll] at h
    refine ⟨step_within_iff.mp ?_, fun s' hs => ?_⟩
    · cases hs : s.step string with
      | ok s' =>
        rw [within_ok]
        by_contra haccepts
        obtain ⟨code, -, herror⟩ := hline haccepts
        rw [hs] at herror
        cases herror
      | error stop =>
        rw [within_error]
        cases stop with
        | ret code => exact ⟨code, step_negative hs, rfl⟩
        | fault fault =>
          rw [hs] at h
          exact absurd h not_succeeds_error
    · rw [hs] at h
      exact ih h (hrest s' hs)

end Reader

/-- **A configuration file is read right if and only if its lines are sound**: outside a block each
begins with a name, and a value that is missing does not look like the end of the line or a comment;
and in a block there is no value without a name. -/
theorem readsRight_iff_sound (pathMax : ℕ) (file : Option Text) : ReadsRight pathMax file ↔
      ∀ text ∈ file, Follows Reader.step Reader.Sound (linesOf pathMax text) .start := by
  constructor
  · intro h text htext
    cases htext
    exact Reader.sound_of_readAll (h.returns.mono fun _ _ => trivial) (h.refused text rfl)
  · intro h
    cases file with
    | none =>
      refine ⟨⟨_, rfl, .inr (show -MpdErr.access.code < 0 by decide)⟩, ?_, ?_⟩
      · intro s hs
        cases hs
      · intro text htext
        cases htext
    | some text =>
      have hsound := h text rfl
      have hread := Reader.readAll_of_sound Reader.inv_start hsound
      refine ⟨hread.mono fun r hr => hr.symm.imp_left And.left, fun s hs => ?_, ?_⟩
      · obtain ⟨r, hr, hzero⟩ := hread
        cases hs.symm.trans hr
        obtain hneg | ⟨-, hfollows, hvalued⟩ := hzero
        · cases hneg
        · refine ⟨fun text' htext => ?_, hvalued⟩
          cases htext
          exact hfollows
      · intro text' htext
        cases htext
        exact hsound.mono fun string s => Reader.refuses_of_sound

theorem not_readsRight_port : ¬ ReadsRight 256 (some "port\n".toList) := by
  intro h
  have hvalued := (h.accepted _ rfl).2 _ mem_cons_self rfl
  cases hvalued

end Conf

end Mpd
