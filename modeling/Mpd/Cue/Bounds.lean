import Mpd.Cue.Parser

/-!
# How far the CUE parser reads

The cursor of `cue/cue_parser.c` is set behind the character that ends a word. If this is the
terminator of the line, the next word is read from what is behind it. So a line is read beyond its
end if it ends with a word, and another word or value is expected (`Parser.Complete`).
-/

namespace Mpd

open List

namespace Cue

def terminated (t : Text) : Text :=
  t ++ ['\x00']

def firstWord (t : Text) : Text :=
  (Text.chug t).takeWhile inWord

def behindWord (t : Text) : Option Text :=
  ((Text.chug t).dropWhile inWord).tail?

def EndsWithin (t : Text) : Prop :=
  firstWord t = [] ∨ behindWord t ≠ none
  deriving Decidable

inductive Arguments
  | nothing
  | value
  /-- the type of a tag, and if it is one, a value -/
  | remark
  /-- a value and a word -/
  | file
  /-- two words -/
  | words

namespace Parser

def arguments (s : Parser) (command : Text) : Arguments :=
  let hasTag := s.state = .header ∨ s.state = .track ∧ s.current.isSome
  if command = "REM".toList then if hasTag then .remark else .nothing
  else if command = "PERFORMER".toList ∨ command = "TITLE".toList then
    if hasTag then .value else .nothing
  else if command = "FILE".toList then if s.finished.isSome then .nothing else .file
  else if s.state = .ignoreFile then .nothing
  else if command = "TRACK".toList then if s.finished.isSome then .nothing else .words
  else if s.state = .track ∧ command = "INDEX".toList then .words
  else .nothing

/-- The line has the arguments that are read. -/
def Complete (s : Parser) (t : Text) : Prop :=
  match s.arguments (firstWord t) with
  | .nothing => True
  | .value => behindWord t ≠ none
  | .remark => ∃ u ∈ behindWord t, (nameParseI (firstWord u)).isSome → behindWord u ≠ none
  | .file => ∃ u ∈ behindWord t, (Text.chug u).head? = some '"' ∨ EndsWithin u
  | .words => ∃ u ∈ behindWord t, EndsWithin u

instance (s : Parser) (t : Text) : Decidable (s.Complete t) := by
  dsimp only [Complete]
  cases s.arguments (firstWord t) <;> infer_instance

end Parser

/-! ### Words at the end of a line -/

section Words

variable {t : Text}

theorem dropWhile_terminated {q : Char → Bool} (hq : q '\x00' = false) (t : Text) :
    (terminated t).dropWhile q = terminated (t.dropWhile q) := by
  rw [terminated, dropWhile_append]
  split
  · next h => simp [terminated, hq, isEmpty_iff.mp h]
  · rfl

theorem takeWhile_terminated {q : Char → Bool} (hq : q '\x00' = false) (t : Text) :
    (terminated t).takeWhile q = t.takeWhile q := by
  induction t with
  | nil => simp [terminated, hq]
  | cons c t ih =>
    simp only [terminated, cons_append, takeWhile_cons] at ih ⊢
    rw [ih]

theorem notMem_of_behindWord (hnul : '\x00' ∉ t) {u : Text} (hu : u ∈ behindWord t) :
    '\x00' ∉ u := by
  have hsub : (Text.chug t).dropWhile inWord ⊆ t :=
    ((dropWhile_sublist _).trans (dropWhile_sublist _)).subset
  rw [behindWord] at hu
  cases hd : (Text.chug t).dropWhile inWord with
  | nil => simp [hd] at hu
  | cons c v =>
    rw [hd] at hu hsub
    obtain rfl := Option.some.inj hu
    exact fun hmem => hnul (hsub (mem_cons_of_mem c hmem))

theorem chug_terminated (t : Text) : Text.chug (terminated t) = terminated (Text.chug t) :=
  dropWhile_terminated rfl t

def restBehind (t : Text) : Text :=
  (behindWord t).elim [] terminated

theorem nextWord_terminated (t : Text) : nextWord (terminated t) =
      .ok (t.takeWhile inWord, (t.dropWhile inWord).tail?.elim [] terminated) := by
  rw [nextWord, dropWhile_terminated rfl, takeWhile_terminated rfl]
  cases t.dropWhile inWord <;> rfl

variable (hnul : '\x00' ∉ t)
include hnul

theorem chug_cons {c : Char} {u : Text} (hc : Text.chug t = c :: u) :
    c ≠ '\x00' ∧ inWord c = true := by
  have hsub : Text.chug t ⊆ t := (dropWhile_sublist _).subset
  have hne : c ≠ '\x00' := fun h => hnul (hsub (by rw [hc, h]; exact mem_cons_self))
  have hspace := head?_dropWhile_not Text.isSpace t
  rw [← Text.chug, hc] at hspace
  exact ⟨hne, by simpa [inWord, hne] using hspace⟩

theorem nextToken_terminated : nextToken (terminated t) =
    .ok (if firstWord t = [] then (none, terminated t)
      else (some (firstWord t), restBehind t)) := by
  rw [nextToken, chug_terminated, firstWord, restBehind, behindWord]
  cases hc : Text.chug t with
  | nil => rfl
  | cons c u =>
    obtain ⟨hne, hword⟩ := chug_cons hnul hc
    dsimp only [terminated, cons_append]
    rw [if_neg hne, if_neg (by simp [hword])]
    exact congrArg (· >>= _) (nextWord_terminated (c :: u))

theorem nextQuoted_terminated :
    ∃ value u, '\x00' ∉ u ∧ nextQuoted (terminated t) = .ok (value, terminated u) := by
  have hsub : t.dropWhile inQuotes ⊆ t := (dropWhile_sublist _).subset
  rw [nextQuoted, dropWhile_terminated rfl]
  cases hd : t.dropWhile inQuotes with
  | nil => exact ⟨_, [], not_mem_nil, rfl⟩
  | cons c u =>
    rw [hd] at hsub
    have hu : '\x00' ∉ c :: u := fun hmem => hnul (hsub hmem)
    dsimp only [terminated, cons_append]
    split
    · exact ⟨_, u, fun hmem => hu (mem_cons_of_mem c hmem), rfl⟩
    · exact ⟨_, c :: u, hu, rfl⟩

theorem nextValue_terminated :
    if (Text.chug t).head? = some '"' then
      ∃ value u, '\x00' ∉ u ∧ nextValue (terminated t) = .ok (some value, terminated u)
    else nextValue (terminated t) = nextToken (terminated t) := by
  have hsub : Text.chug t ⊆ t := (dropWhile_sublist _).subset
  rw [nextValue, nextToken, chug_terminated]
  cases hc : Text.chug t with
  | nil => rfl
  | cons c u =>
    obtain ⟨hne, -⟩ := chug_cons hnul hc
    dsimp only [terminated, cons_append, head?_cons]
    split
    · next hquote =>
      rw [hc] at hsub
      obtain ⟨value, v, hv, heq⟩ := nextQuoted_terminated fun hmem =>
        hnul (hsub (mem_cons_of_mem c hmem))
      rw [if_pos (Option.some.inj hquote)]
      exact ⟨value, v, hv, congrArg (· >>= _) heq⟩
    · next hquote => rw [if_neg fun h => hquote (congrArg some h)]

end Words

/-! ### Lines that are read to their end -/

theorem valueItem_overrun_iff (type : TagType) (p : Text) :
    valueItem type p = .error .overrun ↔ nextValue p = .error .overrun := by
  rw [valueItem]
  cases nextValue p <;> simp

section Overrun

variable {t : Text} {α : Type} (hnul : '\x00' ∉ t)
include hnul

theorem restBehind_overrun_iff {f : Text → Except CueFault α} {P : Text → Prop}
    (hnil : f [] = .error .overrun)
    (hf : ∀ u, '\x00' ∉ u → (f (terminated u) = .error .overrun ↔ ¬ P u)) :
    f (restBehind t) = .error .overrun ↔ ¬ ∃ u ∈ behindWord t, P u := by
  rw [restBehind]
  cases hu : behindWord t with
  | none => simp [hnil]
  | some u => simpa using hf u (notMem_of_behindWord hnul hu)

theorem nextToken_overrun_iff :
    nextToken (restBehind t) = .error .overrun ↔ behindWord t = none := by
  refine (restBehind_overrun_iff (P := fun _ => True) hnul rfl fun u hu => ?_).trans
    (by simp [Option.eq_none_iff_forall_ne_some])
  simp [nextToken_terminated hu]

theorem nextValue_overrun_iff :
    nextValue (restBehind t) = .error .overrun ↔ behindWord t = none := by
  refine (restBehind_overrun_iff (P := fun _ => True) hnul rfl fun u hu => ?_).trans
    (by simp [Option.eq_none_iff_forall_ne_some])
  have hvalue := nextValue_terminated hu
  split at hvalue
  · obtain ⟨value, v, -, heq⟩ := hvalue
    simp [heq]
  · simp [hvalue, nextToken_terminated hu]

theorem nextPair_overrun_iff {next : Text → Except CueFault (Option Text × Text)}
    (hnext : next (terminated t) = nextToken (terminated t)) :
    nextPair next (terminated t) = .error .overrun ↔ ¬ EndsWithin t := by
  rw [nextPair, hnext, nextToken_terminated hnul, Except.ok_bind, EndsWithin, not_or, not_ne_iff,
    ← nextToken_overrun_iff hnul]
  by_cases hword : firstWord t = []
  · simp [hword]
  · rw [if_neg hword]
    dsimp only
    cases nextToken (restBehind t) <;> simp [hword]

theorem nextPair_words_iff : nextPair nextToken (restBehind t) =
    .error .overrun ↔ ¬ ∃ u ∈ behindWord t, EndsWithin u :=
  restBehind_overrun_iff hnul rfl fun _ hu => nextPair_overrun_iff hu rfl

theorem nextPair_file_iff : nextPair nextValue (restBehind t) =
    .error .overrun ↔
      ¬ ∃ u ∈ behindWord t, (Text.chug u).head? = some '"' ∨ EndsWithin u := by
  refine restBehind_overrun_iff hnul rfl fun u hu => ?_
  have hvalue := nextValue_terminated hu
  split at hvalue
  · next hquote =>
    obtain ⟨value, v, hv, heq⟩ := hvalue
    simp [nextPair, heq, nextToken_terminated hv, hquote]
  · next hquote => simpa [hquote] using nextPair_overrun_iff hu hvalue

theorem remItem_overrun_iff : remItem (restBehind t) = .error .overrun ↔
    ¬ ∃ u ∈ behindWord t, (nameParseI (firstWord u)).isSome → behindWord u ≠ none := by
  refine restBehind_overrun_iff hnul rfl fun u hu => ?_
  rw [remItem, nextToken_terminated hu, Except.ok_bind, Classical.not_imp, not_ne_iff,
    ← nextValue_overrun_iff hu]
  by_cases hword : firstWord u = []
  · have hnone : nameParseI [] = none := by decide
    simp [hword, hnone]
  · simp only [if_neg hword, Option.bind_some]
    cases nameParseI (firstWord u) with
    | none => simp
    | some type =>
      simp [valueItem_overrun_iff]

end Overrun

theorem Parser.commit_overrun_iff {α : Type} {s : Parser} (hended : s.ended = false)
    (x : Except CueFault α) {f : Parser → α → Except CueFault Parser}
    (hf : ∀ s a, f s a ≠ .error .overrun) :
    (s.commit >>= fun s => x >>= f s) = .error .overrun ↔
      s.finished.isSome = false ∧ x = .error .overrun := by
  rw [commit, hended]
  cases s.finished <;> cases x <;> simp [hf]

theorem Parser.index_ne_overrun (s : Parser) (args : Option (Text × Text)) :
    s.index args ≠ .error .overrun := by
  rw [index.eq_def]
  dsimp only
  repeat' split
  all_goals simp

def Arguments.Overrun (p : Text) : Arguments → Prop
  | .nothing => False
  | .value => nextValue p = .error .overrun
  | .remark => remItem p = .error .overrun
  | .file => nextPair nextValue p = .error .overrun
  | .words => nextPair nextToken p = .error .overrun

theorem Arguments.overrun_ite {c : Prop} [Decidable c] {p : Text} {args : Arguments} :
    (if c then args else .nothing).Overrun p ↔ c ∧ args.Overrun p := by
  split_ifs with hc <;> simp [hc, Overrun]

section Feed

variable [Utf8] {ignored : TagType → Bool} {s : Parser}

theorem Parser.editTag_overrun_iff (x : Except CueFault (Option (TagType × Text))) :
    (s.editTag fun tag => x >>= fun item => .ok (addItem? ignored item tag)) = .error .overrun ↔
      (s.state = .header ∨ s.state = .track ∧ s.current.isSome) ∧ x = .error .overrun := by
  obtain ⟨state, tag, filename, current, previous, finished, lastUpdated, ended⟩ := s
  cases state <;> cases current <;> cases x <;> simp [editTag]

theorem Parser.track_ne_overrun (s : Parser) (args : Option (Text × Text)) :
    s.track ignored args ≠ .error .overrun := by
  rw [track.eq_def]
  repeat' split
  all_goals simp

/-- A line is read beyond its end where its arguments are. -/
theorem Parser.feed2_overrun_iff {p command rest : Text} (hended : s.ended = false)
    (hcommand : nextToken p = .ok (some command, rest)) :
    s.feed2 ignored p = .error .overrun ↔ (s.arguments command).Overrun rest := by
  rw [feed2, hended, if_neg Bool.false_ne_true, hcommand, Except.ok_bind, arguments]
  simp only [parseRem_eq, addTag_eq]
  by_cases hrem : command = "REM".toList
  · rw [if_pos hrem, if_pos hrem, editTag_overrun_iff, Arguments.overrun_ite, Arguments.Overrun]
  rw [if_neg hrem, if_neg hrem]
  by_cases hperformer : command = "PERFORMER".toList
  · have hvalue : command = "PERFORMER".toList ∨ command = "TITLE".toList := .inl hperformer
    rw [if_pos hperformer, if_pos hvalue, editTag_overrun_iff, valueItem_overrun_iff,
      Arguments.overrun_ite, Arguments.Overrun]
  rw [if_neg hperformer]
  by_cases htitle : command = "TITLE".toList
  · have hvalue : command = "PERFORMER".toList ∨ command = "TITLE".toList := .inr htitle
    rw [if_pos htitle, if_pos hvalue, editTag_overrun_iff, valueItem_overrun_iff,
      Arguments.overrun_ite, Arguments.Overrun]
  rw [if_neg htitle, if_neg (not_or.mpr ⟨hperformer, htitle⟩)]
  by_cases hfile : command = "FILE".toList
  · rw [if_pos hfile, if_pos hfile, commit_overrun_iff hended _ fun _ _ => by simp]
    cases s.finished <;> simp [Arguments.Overrun]
  rw [if_neg hfile, if_neg hfile]
  by_cases hignored : s.state = .ignoreFile
  · rw [if_pos hignored, if_pos hignored]
    simp [Arguments.Overrun]
  rw [if_neg hignored, if_neg hignored]
  by_cases htrack : command = "TRACK".toList
  · rw [if_pos htrack, if_pos htrack, commit_overrun_iff hended _ track_ne_overrun]
    cases s.finished <;> simp [Arguments.Overrun]
  rw [if_neg htrack, if_neg htrack]
  by_cases hindex : s.state = .track ∧ command = "INDEX".toList
  · rw [if_neg (by simp [hindex.1]), if_pos hindex, if_pos hindex, Arguments.Overrun]
    cases nextPair nextToken rest <;> simp [index_ne_overrun]
  · rw [if_neg hindex, if_neg hindex, ite_self]
    simp [Arguments.Overrun]

theorem Parser.feed2_ne_overrun_iff {t : Text} (hended : s.ended = false) (hnul : '\x00' ∉ t) :
    s.feed2 ignored (terminated t) ≠ .error .overrun ↔ s.Complete t := by
  by_cases hword : firstWord t = []
  · refine iff_of_true ?_ ?_
    · rw [feed2, hended, if_neg Bool.false_ne_true, nextToken_terminated hnul, if_pos hword]
      exact fun h => by cases h
    · rw [Complete, hword]
      simp [arguments]
  · rw [ne_eq, feed2_overrun_iff hended ((nextToken_terminated hnul).trans (by rw [if_neg hword])),
      Complete]
    cases s.arguments (firstWord t) with
    | nothing => simp [Arguments.Overrun]
    | value => rw [Arguments.Overrun, nextValue_overrun_iff hnul]
    | remark => rw [Arguments.Overrun, remItem_overrun_iff hnul, not_not]
    | file => rw [Arguments.Overrun, nextPair_file_iff hnul, not_not]
    | words => rw [Arguments.Overrun, nextPair_words_iff hnul, not_not]

/-- **When a line is read within its bounds**: where it has the arguments that are read. After
`cue_parser_finish`, no line is read. -/
theorem Parser.feed2_inBounds_iff (s : Parser) (line : Text) :
    s.feed2 ignored (terminated (Text.beforeNul line)) ≠ .error .overrun ↔
      (s.ended = false → s.Complete (Text.beforeNul line)) := by
  have hnul : '\x00' ∉ Text.beforeNul line := fun h => by simpa using mem_takeWhile_imp h
  cases hended : s.ended with
  | true => simp [feed2, hended]
  | false => simpa using feed2_ne_overrun_iff hended hnul

end Feed

theorem feed2_overrun_file :
    Parser.new.feed2 (fun _ => false) (terminated (Text.beforeNul "FILE".toList)) =
      .error .overrun := by
  decide

end Cue

end Mpd
