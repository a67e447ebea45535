import Mpd.Command.Tokenizer

/-!
# The tokenizer in memory

`tokenizer_next_param` decodes the arguments where they are: the line is in memory up to a NUL, the
cursor is a pointer, and the tokenizers overwrite the line with the strings to which they return
pointers. A loop has `n` iterations at most, and what takes longer has no result.

The tokenizers in memory simulate those on texts (`nextParam_simulates`). Since they write behind
the position that they read, the rest of the line is intact; and since they never write before the
position where they begin, so are the strings that have been returned. Hence a line of encoded
arguments is decoded to these arguments (`nextParam_inPlace`).
-/

namespace Mpd

open List

namespace Tokenizer

open Text (isSpace chug)
open Function (update)

/-! ### The source -/

/-- The memory, and what has been written to it: each position, with the position in the line that
had been read by then. -/
structure Line where
  mem : ℕ → Char
  writes : List (ℕ × ℕ)

inductive Ptr
  | null
  | err (code : ℤ)
  | addr (p : ℕ)
  deriving DecidableEq

namespace Line

def write (l : Line) (dest input : ℕ) (ch : Char) : Line :=
  ⟨update l.mem dest ch, (dest, input) :: l.writes⟩

def strchugFast (l : Line) : ℕ → ℕ → Option ℕ
  | 0, _ => none
  | n + 1, p => if l.mem p ≠ '\x00' ∧ isSpace (l.mem p) then l.strchugFast n (p + 1) else some p

def unquotedLoop (word : ℕ) (l : Line) : ℕ → ℕ → Option (Ptr × ℕ × Line)
  | 0, _ => none
  | n + 1, input =>
    if l.mem input = '\x00' then some (.addr word, input, l)
    else if isSpace (l.mem input) then
      -- a white space: the word ends here
      let l := l.write input input '\x00'
      (l.strchugFast n (input + 1)).map fun cursor => (.addr word, cursor, l)
    else if !validUnquotedChar (l.mem input) then some (.err (-MpdErr.cmdQuote.code), input, l)
    else unquotedLoop word l n (input + 1)

def nextUnquoted (n : ℕ) (l : Line) (input : ℕ) : Option (Ptr × ℕ × Line) :=
  if l.mem input = '\x00' then some (.null, input, l)
  else if !validUnquotedChar (l.mem input) then some (.err (-MpdErr.cmdQuote.code), input, l)
  else unquotedLoop input l n (input + 1)

def closeString (word n : ℕ) (l : Line) (dest input : ℕ) : Option (Ptr × ℕ × Line) :=
  if l.mem input ≠ '\x00' ∧ !isSpace (l.mem input) then some (.null, input, l)
  else
    let l := l.write dest input '\x00'
    (l.strchugFast n input).map fun cursor => (.addr word, cursor, l)

def copyString (word : ℕ) : ℕ → Line → ℕ → ℕ → Option (Ptr × ℕ × Line)
  | 0, _, _, _ => none
  | n + 1, l, dest, input =>
    if l.mem input = '"' then l.closeString word n dest (input + 1)
    else
      -- the backslash escapes the following character
      let input := if l.mem input = '\\' then input + 1 else input
      if l.mem input = '\x00' then some (.null, input - 1, l)
      else copyString word n (l.write dest input (l.mem input)) (dest + 1) (input + 1)

def nextString (n : ℕ) (l : Line) (input : ℕ) : Option (Ptr × ℕ × Line) :=
  if l.mem input = '\x00' then some (.null, input, l)
  else if l.mem input ≠ '"' then some (.null, input, l)
  else copyString input n l input (input + 1)

def nextParam (n : ℕ) (l : Line) (input : ℕ) : Option (Ptr × ℕ × Line) :=
  if l.mem input = '"' then l.nextString n input else l.nextUnquoted n input

def nextParams (n : ℕ) : ℕ → Line → ℕ → Option (List Ptr × ℕ × Line)
  | 0, l, cursor => some ([], cursor, l)
  | k + 1, l, cursor => do
    let (ptr, cursor, l) ← l.nextParam n cursor
    let (ptrs, cursor, l) ← nextParams n k l cursor
    some (ptr :: ptrs, cursor, l)

end Line

/-! ### Texts in memory -/

/-- A string in memory. -/
def Holds (mem : ℕ → Char) (p : ℕ) : Text → Prop
  | [] => mem p = '\x00'
  | ch :: s => mem p = ch ∧ ch ≠ '\x00' ∧ Holds mem (p + 1) s

variable {mem mem' : ℕ → Char} {p d : ℕ} {s text rest : Text} {ch : Char} {n : ℕ} {l : Line}

theorem Holds.congr (h : Holds mem p s) (heq : ∀ q, p ≤ q → q ≤ p + s.length → mem' q = mem q) :
    Holds mem' p s := by
  induction s generalizing p with
  | nil => exact (heq p le_rfl (Nat.le_add_right _ _)).trans h
  | cons ch s ih =>
    rw [length_cons] at heq
    exact ⟨(heq p le_rfl (by omega)).trans h.1, h.2.1,
      ih h.2.2 fun q hle hlt => heq q (by omega) (by omega)⟩

theorem Holds.update_of_lt (h : Holds mem p s) (hd : d < p) : Holds (update mem d ch) p s :=
  h.congr fun _ hq _ => Function.update_of_ne (by omega) _ _

theorem Holds.snoc (h : Holds (update mem d '\x00') p s) (hd : p + s.length = d)
    (hch : ch ≠ '\x00') : Holds (update (update mem d ch) (d + 1) '\x00') p (s ++ [ch]) := by
  induction s generalizing p with
  | nil =>
    obtain rfl : p = d := hd
    exact ⟨by simp, hch, by simp [Holds]⟩
  | cons c s ih =>
    rw [length_cons] at hd
    have hp : p ≠ d ∧ p ≠ d + 1 := by omega
    refine ⟨?_, h.2.1, ih h.2.2 (by omega)⟩
    have hc := h.1
    simpa [hp.1, hp.2] using hc

theorem Holds.read_eq_nul_iff (h : Holds mem p s) : mem p = '\x00' ↔ s = [] := by
  cases s with
  | nil => exact iff_of_true h rfl
  | cons ch s => exact iff_of_false (h.1.trans_ne h.2.1) (cons_ne_nil _ _)

theorem strchugFast_holds (h : Holds l.mem p s) (hn : s.length < n) :
    ∃ q, l.strchugFast n p = some q ∧ p ≤ q ∧ Holds l.mem q (chug s) := by
  induction s generalizing p n with
  | nil =>
    obtain ⟨n, rfl⟩ := Nat.exists_eq_add_of_lt hn
    exact ⟨p, if_neg fun hp => hp.1 h, le_rfl, h⟩
  | cons ch s ih =>
    obtain ⟨n, rfl⟩ : ∃ m, n = m + 1 := ⟨n - 1, by omega⟩
    rw [Line.strchugFast, h.1]
    by_cases hspace : isSpace ch
    · obtain ⟨q, hq, hle, hrest⟩ := ih h.2.2 (by simpa using hn)
      rw [if_pos ⟨h.2.1, hspace⟩, chug, dropWhile_cons_of_pos hspace]
      exact ⟨q, hq, by omega, hrest⟩
    · rw [if_neg fun hp => hspace hp.2, chug, dropWhile_cons_of_neg hspace]
      exact ⟨p, rfl, le_rfl, h⟩

/-! ### Simulation -/

def Represents (mem : ℕ → Char) (cursor : ℕ) (rest : Text) : Ptr → Token → Prop
  | .null, .null => True
  | .err code, .err code' => code = code'
  | .addr p, .str s => Holds mem p s ∧ (p + s.length < cursor ∨ p + s.length = cursor ∧ rest = [])
  | _, _ => False

/-- Nothing is written behind where it was read. -/
def Behind (l l' : Line) : Prop :=
  ∀ w ∈ l'.writes, w ∈ l.writes ∨ w.1 ≤ w.2

/-- A tokenizer in memory, called at `p`, returns what the one on texts returns. -/
structure Simulates (l : Line) (p : ℕ) (spec : Token × Text) (r : Ptr × ℕ × Line) : Prop where
  token : Represents r.2.2.mem r.2.1 spec.2 r.1 spec.1
  rest : Holds r.2.2.mem r.2.1 spec.2
  le : p ≤ r.2.1
  frame : ∀ q < p, r.2.2.mem q = l.mem q
  behind : Behind l r.2.2

theorem Simulates.of_write {spec : Token × Text} {r : Ptr × ℕ × Line} {dest input : ℕ}
    (h : Simulates (l.write dest input ch) p spec r) (hp : p ≤ dest) (hdest : dest ≤ input) :
    Simulates l p spec r where
  token := h.token
  rest := h.rest
  le := h.le
  frame q hq := (h.frame q hq).trans (Function.update_of_ne (by omega) _ _)
  behind w hw := by
    obtain hmem | hle := h.behind w hw
    · obtain rfl | hmem := mem_cons.mp hmem
      · exact .inr hdest
      · exact .inl hmem
    · exact .inr hle

theorem Simulates.of_fails {token : Token} {ptr : Ptr} {input : ℕ} (h : Holds l.mem input text)
    (htoken : Represents l.mem input text ptr token) (hle : p ≤ input) :
    Simulates l p (token, text) (ptr, input, l) :=
  ⟨htoken, h, hle, fun _ _ => rfl, fun _ => .inl⟩

theorem simulates_finish {dest input next word : ℕ} (hs : Holds (update l.mem dest '\x00') word s)
    (hdest : word + s.length = dest) (hle : dest ≤ input) (hnext : dest < next)
    (hrest : Holds l.mem next rest) (hn : rest.length < n) :
    ∃ r, (((l.write dest input '\x00').strchugFast n next).map fun cursor =>
        (Ptr.addr word, cursor, l.write dest input '\x00')) = some r ∧
      Simulates l word (.str s, chug rest) r := by
  obtain ⟨q, hq, hlt, hcursor⟩ := strchugFast_holds (l := l.write dest input '\x00')
    (hrest.update_of_lt hnext) hn
  have hfinish : Simulates (l.write dest input '\x00') word (.str s, chug rest)
      (.addr word, q, l.write dest input '\x00') :=
    ⟨⟨hs, .inl (by dsimp only; omega)⟩, hcursor, by dsimp only; omega, fun _ _ => rfl,
      fun _ => .inl⟩
  exact ⟨_, by rw [hq]; rfl, hfinish.of_write (by omega) hle⟩

theorem closeString_simulates {dest input word : ℕ} (hs : Holds (update l.mem dest '\x00') word s)
    (hdest : word + s.length = dest) (hlt : dest < input) (htext : Holds l.mem input text)
    (hn : text.length < n) :
    ∃ r, l.closeString word n dest input = some r ∧ Simulates l word (closeString s text) r := by
  rw [Line.closeString]
  cases text with
  | nil =>
    rw [if_neg fun hend => hend.1 htext]
    exact simulates_finish hs hdest hlt.le hlt htext hn
  | cons ch text =>
    rw [htext.1, closeString]
    by_cases hspace : (!isSpace ch) = true
    · rw [if_pos ⟨htext.2.1, hspace⟩, if_pos hspace]
      exact ⟨_, rfl, .of_fails htext trivial (by omega)⟩
    · rw [if_neg fun hend => hspace hend.2, if_neg hspace]
      exact simulates_finish hs hdest hlt.le hlt htext hn

theorem unquotedLoop_simulates {word input : ℕ} (hs : Holds (update l.mem input '\x00') word s)
    (hinput : word + s.length = input) (htext : Holds l.mem input text) (hn : text.length < n) :
    ∃ r, Line.unquotedLoop word l n input = some r ∧
      Simulates l word (scan validUnquotedChar (.err (-MpdErr.cmdQuote.code)) s text) r := by
  induction text generalizing n input s with
  | nil =>
    obtain ⟨n, rfl⟩ := Nat.exists_eq_add_of_lt hn
    have hnul : l.mem input = '\x00' := htext
    rw [← hnul, Function.update_eq_self] at hs
    exact ⟨_, if_pos hnul, .of_fails htext ⟨hs, .inr ⟨hinput, rfl⟩⟩ (by omega)⟩
  | cons ch text ih =>
    obtain ⟨n, rfl⟩ : ∃ m, n = m + 1 := ⟨n - 1, by omega⟩
    rw [length_cons, Nat.add_lt_add_iff_right] at hn
    rw [Line.unquotedLoop, scan, htext.1, if_neg htext.2.1]
    by_cases hspace : isSpace ch
    · rw [if_pos hspace, if_pos hspace]
      exact simulates_finish hs hinput le_rfl (Nat.lt_succ_self _) htext.2.2 hn
    rw [if_neg hspace, if_neg hspace]
    by_cases hvalid : (!validUnquotedChar ch) = true
    · rw [if_pos hvalid, if_pos hvalid]
      exact ⟨_, rfl, .of_fails htext rfl (by omega)⟩
    · rw [if_neg hvalid, if_neg hvalid]
      have hsnoc := hs.snoc hinput htext.2.1
      rw [← htext.1, Function.update_eq_self, htext.1] at hsnoc
      exact ih hsnoc (by simp; omega) htext.2.2 hn

theorem copyString_simulates {word dest last : ℕ}
    (hs : Holds (update l.mem dest '\x00') word s) (hdest : word + s.length = dest)
    (hle : dest ≤ last) (hlast : l.mem last = ch) (hne : ch ≠ '\x00')
    (htext : Holds l.mem (last + 1) text) (hn : text.length < n) :
    ∃ r, Line.copyString word n l dest (last + 1) = some r ∧
      Simulates l word (copyString s ch text) r := by
  induction n generalizing l dest last s ch text with
  | zero => omega
  | succ n ih =>
    -- one character is copied from `i` to `dest`
    have hstep {i : ℕ} {c : Char} {text : Text} (hlt : dest < i) (h : Holds l.mem i (c :: text))
        (hn : text.length < n) :
        ∃ r, Line.copyString word n (l.write dest i c) (dest + 1) (i + 1) = some r ∧
          Simulates l word (copyString (s ++ [c]) c text) r := by
      have hi : (l.write dest i c).mem i = c :=
        (Function.update_of_ne (by omega) _ _).trans h.1
      obtain ⟨r, hr, hsim⟩ := ih (hs.snoc hdest h.2.1) (by simp; omega)
        hlt hi h.2.1 (h.2.2.update_of_lt (by omega)) hn
      exact ⟨r, hr, hsim.of_write (by omega) hlt.le⟩
    cases text with
    | nil =>
      have hnul : l.mem (last + 1) = '\x00' := htext
      refine ⟨(.null, last, l), ?_, .of_fails ⟨hlast, hne, hnul⟩ trivial (by omega)⟩
      simp [Line.copyString, hnul]
    | cons c text =>
      rw [length_cons, Nat.add_lt_add_iff_right] at hn
      rw [Line.copyString, htext.1]
      by_cases hquote : c = '"'
      · rw [if_pos hquote, hquote, copyString_close]
        exact closeString_simulates hs hdest (by omega) htext.2.2 hn
      rw [if_neg hquote]
      by_cases hescape : c = '\\'
      · subst hescape
        rw [if_pos rfl]
        cases text with
        | nil =>
          have hnul : l.mem (last + 1 + 1) = '\x00' := htext.2.2
          refine ⟨(.null, last + 1, l), ?_, .of_fails htext trivial (by omega)⟩
          rw [if_pos hnul, Nat.add_sub_cancel]
        | cons c text =>
          rw [if_neg (htext.2.2.1.trans_ne htext.2.2.2.1), htext.2.2.1, copyString_escaped]
          exact hstep (by omega) htext.2.2 (by rw [length_cons] at hn; omega)
      · dsimp only
        rw [if_neg hescape, htext.1, if_neg htext.2.1, copyString_plain hquote hescape]
        exact hstep (by omega) htext hn

/-- **The tokenizer in memory** returns what the one on texts returns. -/
theorem nextParam_simulates (h : Holds l.mem p text) (hn : text.length < n) :
    ∃ r, l.nextParam n p = some r ∧ Simulates l p (nextParam text) r := by
  cases text with
  | nil =>
    have hnul : l.mem p = '\x00' := h
    refine ⟨(.null, p, l), ?_, .of_fails h trivial le_rfl⟩
    simp [Line.nextParam, Line.nextUnquoted, hnul]
  | cons ch text =>
    rw [length_cons] at hn
    have hempty : Holds (update l.mem p '\x00') p [] := Function.update_self _ _ _
    rw [Line.nextParam, h.1]
    by_cases hquote : ch = '"'
    · rw [if_pos hquote, nextParam_quote (by rw [hquote]; rfl), nextString, Line.nextString, h.1,
        if_neg h.2.1, if_neg (not_not.mpr hquote), if_neg (not_not.mpr hquote), ← hquote]
      exact copyString_simulates hempty rfl le_rfl h.1 h.2.1 h.2.2 (by omega)
    · rw [if_neg hquote, nextParam_of_ne (by simpa using hquote), nextUnquoted, nextBare,
        Line.nextUnquoted, h.1, if_neg h.2.1]
      by_cases hvalid : (!validUnquotedChar ch) = true
      · rw [if_pos hvalid, if_pos hvalid]
        exact ⟨_, rfl, .of_fails h rfl le_rfl⟩
      · rw [if_neg hvalid, if_neg hvalid]
        have hsnoc := hempty.snoc rfl h.2.1
        rw [← h.1, Function.update_eq_self, h.1] at hsnoc
        exact unquotedLoop_simulates hsnoc rfl h.2.2 (by omega)

/-! ### Several arguments -/

theorem Argument.length_le (h : Argument text s rest) : rest.length ≤ text.length := by
  have hchug (rest : Text) : (chug rest).length ≤ rest.length :=
    (dropWhile_sublist _).length_le
  obtain ⟨-, -, -⟩ | ⟨-, -⟩ := h
  all_goals
    refine (hchug _).trans ?_
    simp only [length_append, length_cons]
    omega

theorem nextParams_arguments {args : List Text} (hargs : Arguments text args rest)
    (hend : rest = []) (h : Holds l.mem p text) (hn : text.length < n) :
    ∃ ptrs cursor l', Line.nextParams n (args.length + 1) l p =
        some (ptrs.map .addr ++ [.null], cursor, l') ∧
      List.Forall₂ (Holds l'.mem) ptrs args ∧ l'.mem cursor = '\x00' ∧
      (∀ q, q < p ∨ q = p ∧ text = [] → l'.mem q = l.mem q) ∧ Behind l l' := by
  induction hargs generalizing l p with
  | nil =>
    subst hend
    have hnul : l.mem p = '\x00' := h
    refine ⟨[], p, l, ?_, .nil, h, fun _ _ => rfl, fun _ => .inl⟩
    simp [Line.nextParams, Line.nextParam, Line.nextUnquoted, hnul]
  | @cons text s middle rest args harg _ ih =>
    obtain ⟨⟨ptr, cursor, l₁⟩, hcall, hsim⟩ := nextParam_simulates h hn
    rw [nextParam_eq_str_iff.mpr harg] at hsim
    obtain ⟨htoken, hmiddle, hle, hframe₁, hbehind₁⟩ := hsim
    dsimp only at htoken hmiddle hle hframe₁ hbehind₁
    obtain ⟨ptrs, cursor', l₂, hcalls, hptrs, hnul, hframe, hbehind⟩ :=
      ih hend hmiddle (harg.length_le.trans_lt hn)
    cases ptr with
    | null => cases htoken
    | err code => cases htoken
    | addr q =>
      have hkept : Holds l₂.mem q s := htoken.1.congr fun i _ hi => hframe i <| by
        obtain hlt | ⟨heq, hrest⟩ := htoken.2
        · exact .inl (by omega)
        · obtain rfl | hne := eq_or_ne i cursor
          · exact .inr ⟨rfl, hrest⟩
          · exact .inl (by omega)
      refine ⟨q :: ptrs, cursor', l₂, ?_, .cons hkept hptrs, hnul, fun i hi => ?_, fun w hw => ?_⟩
      · rw [Line.nextParams, hcall, Option.bind_eq_bind, Option.bind_some, length_cons]
        dsimp only
        rw [hcalls]
        rfl
      · obtain hlt | ⟨-, rfl⟩ := hi
        · exact (hframe i (.inl (hlt.trans_le hle))).trans (hframe₁ i hlt)
        · exact absurd harg not_argument_nil
      · exact (hbehind w hw).elim (hbehind₁ w) .inr

/-! ### Encoded arguments -/

def escape (arg : Text) : Text :=
  arg.flatMap fun ch => if ch = '"' ∨ ch = '\\' then ['\\', ch] else [ch]

inductive Encoded : Text → Text → Prop
  | quoted (arg : Text) : Encoded arg ('"' :: escape arg ++ ['"'])
  | bare {arg : Text} (hne : arg ≠ []) (h : ∀ ch ∈ arg, ' ' < ch ∧ ch ≠ '"' ∧ ch ≠ '\'') :
      Encoded arg arg

inductive Joined : List Text → Text → Prop
  | nil : Joined [] []
  | single {arg text : Text} (h : Encoded arg text) : Joined [arg] text
  | cons {arg text line : Text} {args : List Text} (h : Encoded arg text) (k : ℕ)
      (hargs : Joined args line) (hne : args ≠ []) :
      Joined (arg :: args) (text ++ (replicate (k + 1) ' ' ++ line))

theorem quoted_escape (arg : Text) : Quoted arg (escape arg) := by
  induction arg with
  | nil => exact .nil
  | cons ch arg ih =>
    rw [escape, flatMap_cons]
    split_ifs with hch
    · exact .escaped ih
    · exact .plain (fun h => hch (.inl h)) (fun h => hch (.inr h)) ih

theorem validUnquotedChar_iff : validUnquotedChar ch = true ↔ ' ' < ch ∧ ch ≠ '"' ∧ ch ≠ '\'' := by
  simp [validUnquotedChar, and_assoc]

theorem Encoded.argument {arg : Text} (h : Encoded arg text) (hrest : Ends rest) :
    Argument (text ++ rest) arg (chug rest) := by
  cases h with
  | quoted =>
    rw [append_assoc]
    exact .quoted (quoted_escape arg) hrest
  | bare hne h =>
    obtain ⟨ch, s, rfl⟩ := exists_cons_of_ne_nil hne
    have hvalid := forall_mem_cons.mp fun c hc => validUnquotedChar_iff.mpr (h c hc)
    exact .unquoted (.mk hvalid.1 hvalid.2 hrest)

theorem Encoded.chug_append {arg : Text} (h : Encoded arg text) (rest : Text) :
    chug (text ++ rest) = text ++ rest := by
  cases h with
  | quoted => rfl
  | bare hne h =>
    obtain ⟨ch, s, rfl⟩ := exists_cons_of_ne_nil hne
    have hvalid := validUnquotedChar_iff.mpr (h ch mem_cons_self)
    exact dropWhile_cons_of_neg (by simp [isSpace_of_validUnquotedChar hvalid])

theorem Joined.chug_eq {args : List Text} (h : Joined args text) : chug text = text := by
  cases h with
  | nil => rfl
  | single h => simpa using h.chug_append []
  | cons h => exact h.chug_append _

theorem Joined.arguments {args : List Text} (h : Joined args text) : Arguments text args [] := by
  induction h with
  | nil => exact .nil
  | @single arg text h =>
    have harg : Argument (text ++ []) arg _ := h.argument fun _ h => by cases h
    rw [append_nil] at harg
    exact .cons harg .nil
  | @cons arg text line args h k hargs _ ih =>
    have hends : Ends (replicate (k + 1) ' ' ++ line) := fun c hc => by
      cases hc
      rfl
    refine .cons (h.argument hends) ?_
    have hspace : ∀ c ∈ replicate (k + 1) ' ', isSpace c = true := fun c hc => by
      rw [eq_of_mem_replicate hc]
      rfl
    rw [Text.chug, dropWhile_append_of_pos hspace]
    rw [← hargs.chug_eq] at ih
    exact ih

/-- **Arguments are decoded in place.** On every line, a call writes only where it has read, and if
it fails, the cursor is on a character. On a line of encoded arguments, the calls return pointers to
these arguments, and then a null pointer at the end of the line. -/
theorem nextParam_inPlace (l : Line) (p n : ℕ) (line : Text) (hline : Holds l.mem p line)
    (hn : line.length < n) :
    (∃ ptr cursor l', l.nextParam n p = some (ptr, cursor, l') ∧ Behind l l' ∧
      ((∀ q, ptr ≠ .addr q) → line ≠ [] → l'.mem cursor ≠ '\x00')) ∧
    ∀ args, Joined args line → ∃ ptrs cursor l',
      Line.nextParams n (args.length + 1) l p = some (ptrs.map .addr ++ [.null], cursor, l') ∧
      List.Forall₂ (Holds l'.mem) ptrs args ∧ l'.mem cursor = '\x00' ∧ Behind l l' := by
  constructor
  · obtain ⟨⟨ptr, cursor, l'⟩, hcall, hsim⟩ := nextParam_simulates hline hn
    refine ⟨ptr, cursor, l', hcall, hsim.behind, fun hptr hne => ?_⟩
    rw [Ne, hsim.rest.read_eq_nul_iff]
    obtain ⟨hnil, -⟩ | ⟨s, rest, hstr⟩ | ⟨rest, hrest, hfails⟩ := nextParam_cases line
    · exact absurd hnil hne
    · have htoken := hsim.token
      rw [hstr] at htoken
      cases ptr with
      | null => cases htoken
      | err code => cases htoken
      | addr q => exact absurd rfl (hptr q)
    · rw [hfails]
      exact hrest
  · intro args hargs
    obtain ⟨ptrs, cursor, l', hcalls, hptrs, hnul, -, hbehind⟩ :=
      nextParams_arguments hargs.arguments rfl hline hn
    exact ⟨ptrs, cursor, l', hcalls, hptrs, hnul, hbehind⟩

theorem nextParam_inPlace_line : ∃ ptrs cursor l', Line.nextParams 9 3
        ⟨fun i => ['a', ' ', ' ', '"', '\\', '"', '"'].getD i '\x00', []⟩ 0 =
        some (ptrs.map .addr ++ [.null], cursor, l') ∧
      List.Forall₂ (Holds l'.mem) ptrs [['a'], ['"']] ∧ l'.mem cursor = '\x00' := by
  obtain ⟨ptrs, cursor, l', hcalls, hptrs, hnul, -⟩ :=
    (nextParam_inPlace ⟨fun i => ['a', ' ', ' ', '"', '\\', '"', '"'].getD i '\x00', []⟩ 0 9
      ['a', ' ', ' ', '"', '\\', '"', '"']
      ⟨rfl, by decide, rfl, by decide, rfl, by decide, rfl, by decide, rfl, by decide, rfl,
        by decide, rfl, by decide, rfl⟩ (by decide)).2 [['a'], ['"']]
      (.cons (.bare (by decide) (by simp)) 1 (.single (.quoted ['"'])) (by decide))
  exact ⟨ptrs, cursor, l', hcalls, hptrs, hnul⟩

end Tokenizer

end Mpd
