import Mpd.Command.Errors

/-!
# The tokenizer

`tokenizer.c` takes one word or argument after the other off a line. A tokenizer returns a pointer
and moves the cursor. There are two conventions for failure: some return a null pointer, others
an error code in the pointer; and a null pointer also means the end of the line, which only the
cursor tells apart.

A line is a text without NUL, and the cursor is the text that is left. The tokenizers overwrite the
line behind the cursor; the tokens are the texts they leave there.

`Bare`, `Argument` and `WellFormed` say what is well formed, without regard to the tokenizers. They
return a token exactly where there is one (`nextWord_eq_str_iff`, `nextParam_eq_str_iff`), and leave
the cursor on a character where they fail (`nextParam_cases`).
-/

namespace Mpd

open List Bool

open Text (isSpace chug)

inductive Token
  | null
  | err (code : ℤ)
  | str (s : Text)
  deriving DecidableEq, Repr

namespace Tokenizer

def validWordFirstChar (ch : Char) : Bool :=
  ch.isAlpha

def validWordChar (ch : Char) : Bool :=
  ch.isAlphanum || ch = '_'

def validUnquotedChar (ch : Char) : Bool :=
  ' ' < ch && ch ≠ '"' && ch ≠ '\''

def scan (valid : Char → Bool) (failure : Token) (word : Text) : Text → Token × Text
  | [] => (.str word, [])
  | ch :: input =>
    if isSpace ch then (.str word, chug input)
    else if !valid ch then (failure, ch :: input)
    else scan valid failure (word ++ [ch]) input

def nextBare (validFirst valid : Char → Bool) (failure : Token) : Text → Token × Text
  | [] => (.null, [])
  | ch :: input =>
    if !validFirst ch then (failure, ch :: input) else scan valid failure [ch] input

def nextWord (input : Text) : Token × Text :=
  nextBare validWordFirstChar validWordChar .null input

def nextUnquoted (input : Text) : Token × Text :=
  nextBare validUnquotedChar validUnquotedChar (.err (-MpdErr.cmdQuote.code)) input

def closeString (dest : Text) : Text → Token × Text
  | [] => (.str dest, [])
  | ch :: input => if !isSpace ch then (.null, ch :: input) else (.str dest, chug (ch :: input))

def copyString (dest : Text) (prev : Char) : Text → Token × Text
  | [] => (.null, [prev])
  | ch :: input =>
    if ch = '"' then closeString dest input
    else if ch = '\\' then
      -- the backslash escapes the following character
      match input with
      | [] => (.null, ['\\'])
      | ch :: input => copyString (dest ++ [ch]) ch input
    else copyString (dest ++ [ch]) ch input

def nextString : Text → Token × Text
  | [] => (.null, [])
  | ch :: input => if ch ≠ '"' then (.null, ch :: input) else copyString [] '"' input

def nextParam (input : Text) : Token × Text :=
  if input.head? = some '"' then nextString input else nextUnquoted input

/-! ### Well-formed lines -/

def Ends (rest : Text) : Prop :=
  ∀ ch ∈ rest.head?, isSpace ch = true

inductive Quoted : Text → Text → Prop
  | nil : Quoted [] []
  | plain {ch : Char} {s body : Text} (hquote : ch ≠ '"') (hescape : ch ≠ '\\')
      (h : Quoted s body) : Quoted (ch :: s) (ch :: body)
  | escaped {ch : Char} {s body : Text} (h : Quoted s body) : Quoted (ch :: s) ('\\' :: ch :: body)

inductive Bare (validFirst valid : Char → Bool) : Text → Text → Text → Prop
  | mk {ch : Char} {s rest : Text} (hfirst : validFirst ch = true) (h : ∀ c ∈ s, valid c = true)
      (hrest : Ends rest) : Bare validFirst valid (ch :: s ++ rest) (ch :: s) (chug rest)

def BareStart (validFirst valid : Char → Bool) (s : Text) : Prop :=
  (∀ c ∈ s.head?, validFirst c = true) ∧ ∀ c ∈ s.tail, valid c = true

inductive Enclosed : Text → Text → Text → Prop
  | mk {s body rest : Text} (h : Quoted s body) (hrest : Ends rest) :
      Enclosed ('"' :: body ++ '"' :: rest) s (chug rest)

inductive Argument : Text → Text → Text → Prop
  | unquoted {input s rest : Text} (h : Bare validUnquotedChar validUnquotedChar input s rest) :
      Argument input s rest
  | quoted {s body rest : Text} (h : Quoted s body) (hrest : Ends rest) :
      Argument ('"' :: body ++ '"' :: rest) s (chug rest)

inductive Arguments : Text → List Text → Text → Prop
  | nil {input : Text} : Arguments input [] input
  | cons {input s middle rest : Text} {args : List Text} (h : Argument input s middle)
      (hargs : Arguments middle args rest) : Arguments input (s :: args) rest

/-- **A well-formed line**: a command word and arguments, and nothing else. -/
def WellFormed (line word : Text) (args : List Text) : Prop :=
  ∃ rest, Bare validWordFirstChar validWordChar line word rest ∧ Arguments rest args []

variable {input s rest : Text}

/-! ### Bare tokens -/

section Bare

variable {validFirst valid : Char → Bool} {failure : Token}

theorem scan_ends {word : Text} (h : Ends rest) :
    scan valid failure word rest = (.str word, chug rest) := by
  cases rest with
  | nil => rfl
  | cons ch rest =>
    have hspace : isSpace ch = true := h ch rfl
    rw [scan, if_pos hspace, chug, chug, dropWhile_cons_of_pos hspace]

theorem scan_append {word : Text} (hspace : ∀ c, valid c = true → isSpace c = false)
    (h : ∀ c ∈ s, valid c = true) :
    scan valid failure word (s ++ rest) = scan valid failure (word ++ s) rest := by
  induction s generalizing word with
  | nil => rw [nil_append, append_nil]
  | cons ch s ih =>
    have hvalid : valid ch = true := h ch mem_cons_self
    rw [cons_append, scan, if_neg (by simp [hspace ch hvalid]), if_neg (by simp [hvalid]),
      ih fun c hc => h c (mem_cons_of_mem _ hc), append_assoc, singleton_append]

theorem scan_cases (valid : Char → Bool) (failure : Token) (word input : Text) :
    ∃ s rest, input = s ++ rest ∧ (∀ c ∈ s, valid c = true) ∧
      (Ends rest ∧ scan valid failure word input = (.str (word ++ s), chug rest) ∨
        rest ≠ [] ∧ scan valid failure word input = (failure, rest)) := by
  induction input generalizing word with
  | nil =>
    refine ⟨[], [], rfl, fun _ h => (nomatch h), .inl ⟨fun _ h => (nomatch h), ?_⟩⟩
    rw [scan, append_nil]
    rfl
  | cons ch input ih =>
    rw [scan]
    split
    · next hspace =>
      have hends : Ends (ch :: input) := fun c hc => by
        cases hc
        exact hspace
      refine ⟨[], ch :: input, rfl, fun _ h => (nomatch h), .inl ⟨hends, ?_⟩⟩
      rw [append_nil, chug, chug, dropWhile_cons_of_pos hspace]
    split
    · exact ⟨[], ch :: input, rfl, fun _ h => (nomatch h), .inr ⟨cons_ne_nil _ _, rfl⟩⟩
    · next hvalid =>
      rw [not_eq_true, not_eq_false'] at hvalid
      obtain ⟨s, rest, rfl, hs, hscan⟩ := ih (word ++ [ch])
      refine ⟨ch :: s, rest, rfl, forall_mem_cons.mpr ⟨hvalid, hs⟩, ?_⟩
      rw [append_assoc, singleton_append] at hscan
      exact hscan

/-- **Bare tokens**: what is returned is what stands there. -/
theorem nextBare_eq_str_iff (hspace : ∀ c, valid c = true → isSpace c = false)
    (hfailure : ∀ s, failure ≠ .str s) :
    nextBare validFirst valid failure input = (.str s, rest) ↔
      Bare validFirst valid input s rest := by
  constructor
  · intro h
    cases input with
    | nil => cases h
    | cons ch input =>
      rw [nextBare] at h
      split at h
      · exact absurd (congrArg Prod.fst h) (hfailure s)
      · next hfirst =>
        rw [not_eq_true, not_eq_false'] at hfirst
        obtain ⟨t, tail, rfl, ht, ⟨htail, hscan⟩ | ⟨-, hscan⟩⟩ :=
          scan_cases valid failure [ch] input
        · rw [hscan] at h
          cases h
          exact .mk hfirst ht htail
        · rw [hscan] at h
          exact absurd (congrArg Prod.fst h) (hfailure s)
  · rintro ⟨hfirst, hs, hrest⟩
    rw [cons_append, nextBare, if_neg (by simp [hfirst]), scan_append hspace hs,
      scan_ends hrest, singleton_append]

theorem nextBare_cases (validFirst valid : Char → Bool) (failure : Token) (input : Text) :
    (input = [] ∧ nextBare validFirst valid failure input = (.null, [])) ∨
    (∃ s rest, nextBare validFirst valid failure input = (.str s, rest)) ∨
    ∃ cursor, cursor ≠ [] ∧ nextBare validFirst valid failure input = (failure, cursor) := by
  cases input with
  | nil => exact .inl ⟨rfl, rfl⟩
  | cons ch input =>
    rw [nextBare]
    split
    · exact .inr (.inr ⟨_, cons_ne_nil _ _, rfl⟩)
    · obtain ⟨t, tail, -, -, ⟨-, hscan⟩ | ⟨hne, hscan⟩⟩ := scan_cases valid failure [ch] input
      · exact .inr (.inl ⟨_, _, hscan⟩)
      · exact .inr (.inr ⟨tail, hne, hscan⟩)

theorem exists_bareStart {token : Token} {cursor : Text} (htoken : ∀ s, token ≠ .str s)
    (h : nextBare validFirst valid failure input = (token, cursor)) :
    ∃ s, BareStart validFirst valid s ∧ input = s ++ cursor := by
  have hnil : BareStart validFirst valid [] := ⟨fun _ h => (nomatch h), fun _ h => (nomatch h)⟩
  cases input with
  | nil =>
    cases h
    exact ⟨[], hnil, rfl⟩
  | cons ch input =>
    rw [nextBare] at h
    split at h
    · cases h
      exact ⟨[], hnil, rfl⟩
    · next hfirst =>
      rw [not_eq_true, not_eq_false'] at hfirst
      obtain ⟨t, rest, rfl, ht, ⟨-, hscan⟩ | ⟨-, hscan⟩⟩ := scan_cases valid failure [ch] input
      · rw [hscan] at h
        cases h
        exact absurd rfl (htoken _)
      · rw [hscan] at h
        cases h
        refine ⟨ch :: t, ⟨fun c hc => ?_, ht⟩, rfl⟩
        cases hc
        exact hfirst

theorem nextBare_bareStart {ch : Char} (hspace : ∀ c, valid c = true → isSpace c = false)
    (hs : BareStart validFirst valid s) (hch : isSpace ch = false) (hfirst : validFirst ch = false)
    (hvalid : valid ch = false) :
    nextBare validFirst valid failure (s ++ ch :: rest) = (failure, ch :: rest) := by
  cases s with
  | nil => rw [nil_append, nextBare, if_pos (by rw [hfirst]; rfl)]
  | cons c s =>
    have hvalids : ∀ c ∈ s, valid c = true := hs.2
    rw [cons_append, nextBare, if_neg (by rw [hs.1 c rfl]; decide),
      scan_append hspace hvalids, scan, if_neg (by rw [hch]; decide), if_pos (by rw [hvalid]; rfl)]

end Bare

theorem isSpace_of_validWordChar {c : Char} (h : validWordChar c = true) : isSpace c = false := by
  by_contra hspace
  rw [not_eq_false, isSpace] at hspace
  simp only [or_eq_true, decide_eq_true_eq] at hspace
  obtain (((rfl | rfl) | rfl) | rfl) | rfl := hspace <;> exact absurd h (by decide)

theorem isSpace_of_validUnquotedChar {c : Char} (h : validUnquotedChar c = true) :
    isSpace c = false := by
  by_contra hspace
  rw [not_eq_false, isSpace] at hspace
  simp only [or_eq_true, decide_eq_true_eq] at hspace
  obtain (((rfl | rfl) | rfl) | rfl) | rfl := hspace <;> exact absurd h (by decide)

/-- **`tokenizer_next_word`** returns a word exactly where there is one. -/
theorem nextWord_eq_str_iff :
    nextWord input = (.str s, rest) ↔ Bare validWordFirstChar validWordChar input s rest :=
  nextBare_eq_str_iff (fun _ => isSpace_of_validWordChar) fun _ => nofun

theorem nextWord_eq_of_bare {token : Token} {cursor : Text} (h : nextWord input = (token, cursor))
    (hbare : Bare validWordFirstChar validWordChar input s rest) :
    token = .str s ∧ cursor = rest :=
  Prod.ext_iff.mp (h.symm.trans (nextWord_eq_str_iff.mpr hbare))

theorem nextWord_cases (input : Text) :
    (∃ s rest, nextWord input = (.str s, rest)) ∨ ∃ cursor, nextWord input = (.null, cursor) := by
  obtain ⟨-, h⟩ | h | ⟨cursor, -, h⟩ :=
    nextBare_cases validWordFirstChar validWordChar .null input
  · exact .inr ⟨[], h⟩
  · exact .inl h
  · exact .inr ⟨cursor, h⟩

/-! ### Quoted strings -/

theorem closeString_cases (dest input : Text) :
    (Ends input ∧ closeString dest input = (.str dest, chug input)) ∨
      ∃ cursor, cursor ≠ [] ∧ closeString dest input = (.null, cursor) := by
  cases input with
  | nil => exact .inl ⟨fun _ h => (nomatch h), rfl⟩
  | cons ch input =>
    rw [closeString]
    split
    · exact .inr ⟨_, cons_ne_nil _ _, rfl⟩
    · next hspace =>
      rw [not_eq_true, not_eq_false'] at hspace
      refine .inl ⟨fun c hc => ?_, rfl⟩
      cases hc
      exact hspace

theorem closeString_ends {dest : Text} (h : Ends rest) :
    closeString dest rest = (.str dest, chug rest) := by
  cases rest with
  | nil => rfl
  | cons ch rest => rw [closeString, h ch rfl]; rfl

theorem copyString_close (dest : Text) (prev : Char) (input : Text) :
    copyString dest prev ('"' :: input) = closeString dest input := by
  rw [copyString.eq_def]
  rfl

theorem copyString_escaped (dest : Text) (prev ch : Char) (input : Text) :
    copyString dest prev ('\\' :: ch :: input) = copyString (dest ++ [ch]) ch input := by
  rfl

theorem copyString_plain {ch : Char} (hquote : ch ≠ '"') (hescape : ch ≠ '\\') (dest : Text)
    (prev : Char) (input : Text) :
    copyString dest prev (ch :: input) = copyString (dest ++ [ch]) ch input := by
  rw [copyString.eq_def]
  simp only [if_neg hquote, if_neg hescape]

section

variable {dest body : Text} {prev : Char} (h : Quoted s body)
include h

theorem copyString_append : copyString dest prev (body ++ rest) =
      copyString (dest ++ s) (body.getLast?.getD prev) rest := by
  induction h generalizing dest prev with
  | nil => rw [nil_append, append_nil, getLast?_nil, Option.getD_none]
  | plain hquote hescape _ ih =>
    rw [cons_append, copyString_plain hquote hescape, ih, append_assoc,
      singleton_append, getLast?_cons, Option.getD_some]
  | escaped _ ih =>
    rw [cons_append, cons_append, copyString_escaped, ih, append_assoc,
      singleton_append, getLast?_cons, getLast?_cons, Option.getD_some,
      Option.getD_some]

theorem copyString_quoted (hrest : Ends rest) :
    copyString dest prev (body ++ '"' :: rest) = (.str (dest ++ s), chug rest) := by
  rw [copyString_append h, copyString_close, closeString_ends hrest]

theorem copyString_unclosed : copyString dest prev body = (.null, [body.getLast?.getD prev]) := by
  have heq : copyString dest prev (body ++ []) = _ := copyString_append h
  rwa [append_nil] at heq

end

theorem exists_quoted (input : Text) : ∃ s body, Quoted s body ∧
      ((∃ rest, input = body ++ '"' :: rest) ∨ input = body ∨ input = body ++ ['\\']) := by
  induction h : input.length using Nat.strong_induction_on generalizing input with
  | _ n ih =>
    cases input with
    | nil => exact ⟨[], [], .nil, .inr (.inl rfl)⟩
    | cons ch input =>
      by_cases hquote : ch = '"'
      · exact ⟨[], [], .nil, .inl ⟨input, by rw [hquote]; rfl⟩⟩
      by_cases hescape : ch = '\\'
      · subst hescape
        cases input with
        | nil => exact ⟨[], [], .nil, .inr (.inr rfl)⟩
        | cons ch' input =>
          have hlt : input.length < n := by
            rw [← h, length_cons, length_cons]
            omega
          obtain ⟨s, body, hs, hinput⟩ := ih input.length hlt input rfl
          refine ⟨ch' :: s, '\\' :: ch' :: body, .escaped hs, ?_⟩
          obtain ⟨rest, rfl⟩ | rfl | rfl := hinput
          · exact .inl ⟨rest, rfl⟩
          · exact .inr (.inl rfl)
          · exact .inr (.inr rfl)
      · obtain ⟨s, body, hs, hinput⟩ := ih input.length (by simp [← h]) input rfl
        refine ⟨ch :: s, ch :: body, .plain hquote hescape hs, ?_⟩
        obtain ⟨rest, rfl⟩ | rfl | rfl := hinput
        · exact .inl ⟨rest, rfl⟩
        · exact .inr (.inl rfl)
        · exact .inr (.inr rfl)

theorem copyString_cases (dest : Text) (prev : Char) (input : Text) :
    (∃ s body rest, input = body ++ '"' :: rest ∧ Quoted s body ∧ Ends rest ∧
      copyString dest prev input = (.str (dest ++ s), chug rest)) ∨
    ∃ cursor, cursor ≠ [] ∧ copyString dest prev input = (.null, cursor) := by
  obtain ⟨s, body, hs, ⟨rest, rfl⟩ | rfl | rfl⟩ := exists_quoted input
  · obtain ⟨hends, hclose⟩ | ⟨cursor, hne, hclose⟩ := closeString_cases (dest ++ s) rest
    · exact .inl ⟨s, body, rest, rfl, hs, hends, copyString_quoted hs hends⟩
    · exact .inr ⟨cursor, hne, by rw [copyString_append hs, copyString_close, hclose]⟩
  · exact .inr ⟨_, cons_ne_nil _ _, copyString_unclosed hs⟩
  · exact .inr ⟨['\\'], cons_ne_nil _ _, by rw [copyString_append hs]; rfl⟩

theorem nextString_cases (input : Text) :
    (∃ s rest, Enclosed input s rest ∧ nextString input = (.str s, rest)) ∨
      ∃ cursor, (cursor = [] → input = []) ∧ nextString input = (.null, cursor) := by
  cases input with
  | nil => exact .inr ⟨[], fun _ => rfl, rfl⟩
  | cons ch input =>
    rw [nextString]
    split
    · exact .inr ⟨ch :: input, id, rfl⟩
    · next hquote =>
      obtain rfl := not_not.mp hquote
      obtain ⟨s, body, rest, rfl, hs, hrest, hcopy⟩ | ⟨cursor, hne, hcopy⟩ :=
        copyString_cases [] '"' input
      · exact .inl ⟨s, chug rest, .mk hs hrest, hcopy⟩
      · exact .inr ⟨cursor, fun h => absurd h hne, hcopy⟩

/-- **`tokenizer_next_string`** returns a string exactly where there is a quoted one. -/
theorem nextString_eq_str_iff : nextString input = (.str s, rest) ↔ Enclosed input s rest := by
  constructor
  · intro h
    obtain ⟨s', rest', henclosed, hstring⟩ | ⟨cursor, -, hstring⟩ := nextString_cases input
    · rw [hstring] at h
      cases h
      exact henclosed
    · rw [hstring] at h
      cases h
  · rintro ⟨hs, hrest⟩
    rw [cons_append, nextString, if_neg (not_not.mpr rfl), copyString_quoted hs hrest, nil_append]

/-! ### Arguments -/

theorem nextParam_quote (h : input.head? = some '"') : nextParam input = nextString input :=
  if_pos h

theorem nextParam_of_ne (h : input.head? ≠ some '"') : nextParam input = nextUnquoted input :=
  if_neg h

/-- **`tokenizer_next_param`** returns an argument exactly where there is one. -/
theorem nextParam_eq_str_iff : nextParam input = (.str s, rest) ↔ Argument input s rest := by
  have hbare : nextUnquoted input = (.str s, rest) ↔
      Bare validUnquotedChar validUnquotedChar input s rest :=
    nextBare_eq_str_iff (fun _ => isSpace_of_validUnquotedChar) fun _ => nofun
  constructor
  · intro h
    by_cases hquote : input.head? = some '"'
    · rw [nextParam_quote hquote, nextString_eq_str_iff] at h
      obtain ⟨hs, hrest⟩ := h
      exact .quoted hs hrest
    · rw [nextParam_of_ne hquote] at h
      exact .unquoted (hbare.mp h)
  · rintro (h | ⟨h, hrest⟩)
    · have hquote : input.head? ≠ some '"' := by
        obtain ⟨hfirst, -, -⟩ := h
        rintro heq
        rw [cons_append, head?_cons, Option.some.injEq] at heq
        rw [heq] at hfirst
        exact absurd hfirst (by decide)
      rw [nextParam_of_ne hquote]
      exact hbare.mpr h
    · rw [nextParam_quote rfl, nextString_eq_str_iff]
      exact .mk h hrest

theorem nextParam_cases (input : Text) : (input = [] ∧ nextParam input = (.null, [])) ∨
    (∃ s rest, nextParam input = (.str s, rest)) ∨
    ∃ cursor, cursor ≠ [] ∧
      nextParam input =
        (if input.head? = some '"' then .null else .err (-MpdErr.cmdQuote.code), cursor) := by
  by_cases hquote : input.head? = some '"'
  · rw [if_pos hquote, nextParam_quote hquote]
    obtain ⟨s, rest, -, hstring⟩ | ⟨cursor, hcursor, hstring⟩ := nextString_cases input
    · exact .inr (.inl ⟨s, rest, hstring⟩)
    · refine .inr (.inr ⟨cursor, fun h => ?_, hstring⟩)
      rw [hcursor h] at hquote
      cases hquote
  · rw [if_neg hquote, nextParam_of_ne hquote]
    exact nextBare_cases _ _ _ _

/-! ### Several arguments -/

theorem not_argument_nil : ¬ Argument [] s rest := by
  nofun

theorem Argument.unique {s' rest' : Text} (h : Argument input s rest)
    (h' : Argument input s' rest') : s = s' ∧ rest = rest' := by
  have heq := (nextParam_eq_str_iff.mpr h).symm.trans (nextParam_eq_str_iff.mpr h')
  cases heq
  exact ⟨rfl, rfl⟩

theorem Arguments.extend {args args' : List Text} {rest' : Text} (h : Arguments input args rest)
    (hend : ∀ s r, ¬ Argument rest s r) (h' : Arguments input args' rest') :
    ∃ more, args = args' ++ more ∧ Arguments rest' more rest := by
  induction h' generalizing args with
  | nil => exact ⟨args, rfl, h⟩
  | cons hfirst _ ih =>
    cases h with
    | nil => exact absurd hfirst (hend _ _)
    | cons hfirst' htail =>
      obtain ⟨rfl, rfl⟩ := hfirst'.unique hfirst
      obtain ⟨more, rfl, hmore⟩ := ih htail
      exact ⟨more, rfl, hmore⟩

theorem Arguments.eq_nil {args : List Text} (h : Arguments input args rest)
    (hstop : ∀ s r, ¬ Argument input s r) : args = [] ∧ rest = input := by
  cases h with
  | nil => exact ⟨rfl, rfl⟩
  | cons hfirst _ => exact absurd hfirst (hstop _ _)

end Tokenizer

end Mpd
