import Mathlib.Algebra.Ring.Nat
import Mpd.General.Outcome
import Mpd.General.Text

/-!
# Text files

`read_text_line` of `text_file.c` reads a line of a file into a growing buffer: a piece of the line
at a time, until a piece ends with a newline or is shorter than the buffer allows.

A file is the text that is still to be read. Of the buffer only its sizes matter, since what it
holds is the line that is returned. How much memory `GString` allocates is left open: more than is
asked for. Whatever it is, a line that is not too long is read as a whole (`readTextLine_line`).

In the end the last characters of the line are looked at. This is within the string, unless the line
is empty. `readAll_of_allGood` says for which files this does not happen, and each line is read.
-/

namespace Mpd

open List Nat

/-- How `g_string_set_size` allocates memory: the allocated size that it finds, the size that is
asked for, and the allocated size that it leaves. There is room for a NUL behind the text. -/
class StringAllocator where
  allocate : ℕ → ℕ → ℕ
  lt_allocate : ∀ allocated size, size < allocate allocated size

/-- Memory is allocated in powers of two. -/
instance : StringAllocator where
  allocate allocated size := if size < allocated then allocated else 2 ^ (size + 1).log2 * 2
  lt_allocate allocated size := by
    split
    · assumption
    · have hlt : size + 1 < 2 ^ ((size + 1).log2 + 1) := Nat.lt_log2_self
      rw [Nat.pow_succ] at hlt
      omega

/-- The sizes of a `GString`. -/
structure LineBuffer where
  len : ℕ
  allocatedLen : ℕ

namespace LineBuffer

def maxLength : ℕ := 512 * 1024

def step : ℕ := 1024

def getsChunk : ℕ → Text → Text × Text
  | 0, file => ([], file)
  | _ + 1, [] => ([], [])
  | n + 1, ch :: file =>
    if ch = '\n' then ([ch], file)
    else
      let (chunk, file) := getsChunk n file
      (ch :: chunk, file)

def gets (size : ℕ) (file : Text) : Option (Text × Text) :=
  if file = [] then none else some (getsChunk (size - 1) file)

def stripLast (ch : Char) (text : Text) : Text :=
  if text.getLast? = some ch then text.dropLast else text

/-! ### Lines of a file -/

variable {line text rest file : Text} {n rounds : ℕ}

def First : Text → Text → Prop
  | [], rest => rest = []
  | ch :: line, rest => if ch = '\n' then line = [] else First line rest

theorem getsChunk_first (h : First line rest) :
    getsChunk n (line ++ rest) = (line.take n, line.drop n ++ rest) := by
  induction line generalizing n with
  | nil =>
    obtain rfl : rest = [] := h
    cases n <;> rfl
  | cons ch line ih =>
    cases n with
    | zero => rfl
    | succ n =>
      rw [First] at h
      rw [cons_append, getsChunk]
      split at h
      · next hch =>
        rw [if_pos hch, h]
        simp
      · next hch =>
        rw [if_neg hch, ih h]
        rfl

theorem First.drop (h : First line rest) (hn : n < line.length) :
    First (line.drop n) rest ∧ '\n' ∉ line.take n := by
  induction line generalizing n with
  | nil => cases hn
  | cons ch line ih =>
    cases n with
    | zero => exact ⟨h, not_mem_nil⟩
    | succ n =>
      rw [First] at h
      split at h
      · rw [h] at hn
        exact absurd (lt_of_succ_lt_succ hn) (not_lt_zero n)
      · next hch =>
        obtain ⟨hdrop, hnot⟩ := ih h (lt_of_succ_lt_succ hn)
        exact ⟨hdrop, by simp [Ne.symm hch, hnot]⟩

theorem First.rest_eq (h : First line rest) (hlast : line.getLast? ≠ some '\n') : rest = [] := by
  induction line with
  | nil => exact h
  | cons ch line ih =>
    rw [First] at h
    split at h
    · next hch => simp [h, hch] at hlast
    · cases line with
      | nil => exact h
      | cons ch' line => exact ih h (by simpa using hlast)

theorem first_newline (h : '\n' ∉ line) : First (line ++ ['\n']) rest := by
  induction line with
  | nil => simp [First]
  | cons ch line ih =>
    rw [mem_cons, not_or] at h
    rw [cons_append, First, if_neg (Ne.symm h.1)]
    exact ih h.2

def nextLine (file : Text) : Text × Text :=
  getsChunk file.length file

theorem nextLine_spec (file : Text) : First (nextLine file).1 (nextLine file).2 ∧
    (nextLine file).1 ++ (nextLine file).2 = file := by
  induction file with
  | nil => exact ⟨rfl, rfl⟩
  | cons ch file ih =>
    rw [nextLine, length_cons, getsChunk]
    split
    · next hch => exact ⟨by simp [First, hch], rfl⟩
    · next hch => exact ⟨by simpa [First, hch, nextLine] using ih.1, congrArg _ ih.2⟩

/-! ### Reading a line -/

variable [StringAllocator] {b : LineBuffer}

def setSize (b : LineBuffer) (size : ℕ) : LineBuffer where
  len := size
  allocatedLen := StringAllocator.allocate b.allocatedLen size

def finishLine (b : LineBuffer) (text file : Text) : Option Text × LineBuffer × Text :=
  let text := stripLast '\r' (stripLast '\n' text)
  (some text, b.setSize text.length, file)

/-- The loop of `read_text_line`: nothing at the end of the file, or the text that was read. -/
def readText : ℕ → LineBuffer → Text → Text → Option Text × LineBuffer × Text
  | 0, b, text, file => (some text, b, file)
  | rounds + 1, b, text, file =>
    if b.len < maxLength then
      match gets (b.allocatedLen - text.length) file with
      | none => (if text = [] then none else some text, b, file)
      | some (chunk, file) =>
        let piece := Text.beforeNul chunk
        let text := text ++ piece
        if piece.length < step - 1 ∨ text.getLast? = some '\n' then (some text, b, file)
        else readText rounds (b.setSize (text.length + step)) text file
    else (some text, b, file)

def grown (b : LineBuffer) : LineBuffer :=
  if b.allocatedLen < step then b.setSize step else b

def readTextLine (b : LineBuffer) (file : Text) : Option Text × LineBuffer × Text :=
  match readText (file.length + 1) b.grown [] file with
  | (none, b, file) => (none, b, file)
  | (some text, b, file) => b.finishLine text file

def pieceEnd (b : LineBuffer) : ℕ → ℕ
  | 0 => b.allocatedLen - 1
  | k + 1 => pieceEnd (b.setSize (b.allocatedLen - 1 + step)) k

def Fits (b : LineBuffer) (length : ℕ) : Prop :=
  ∀ k, b.pieceEnd k < length → b.pieceEnd k + step < maxLength

theorem fits_of_le {length : ℕ} (h : length + step ≤ maxLength) : b.Fits length :=
  fun _ hk => (Nat.add_lt_add_right hk step).trans_le h

theorem readText_end (h : text ≠ []) : readText rounds b text [] = (some text, b, []) := by
  cases rounds with
  | zero => rfl
  | succ rounds => simp [readText, gets, h]

/-- **A line is read behind what has been read already**: in every round, either the end of the line
is reached, or the piece is long enough to go on. -/
theorem readText_first (text line : Text) (hfirst : First line rest) (hne : text ++ line ≠ [])
    (hnul : '\x00' ∉ line) (hrounds : line.length < rounds) (hlen : b.len < maxLength)
    (hroom : text.length + step ≤ b.allocatedLen) (hfits : b.Fits (text ++ line).length) :
    ∃ b', readText rounds b text (line ++ rest) = (some (text ++ line), b', rest) ∧
      (text ++ line).length ≤ b'.allocatedLen := by
  induction rounds generalizing b text line with
  | zero => cases hrounds
  | succ rounds ih =>
    by_cases hnil : line = []
    · subst hnil
      obtain rfl : rest = [] := hfirst
      simp only [append_nil] at hne ⊢
      exact ⟨b, readText_end hne, by omega⟩
    generalize hn : b.allocatedLen - text.length - 1 = n
    have hgets : gets (b.allocatedLen - text.length) (line ++ rest) =
        some (line.take n, line.drop n ++ rest) := by
      rw [gets, if_neg (by simp [hnil]), hn, getsChunk_first hfirst]
    have hpiece : Text.beforeNul (line.take n) = line.take n :=
      Text.beforeNul_eq_self fun h => hnul (mem_of_mem_take h)
    have hstep : step - 1 ≤ n := by omega
    have hpos : 0 < n := lt_of_lt_of_le (by decide) hstep
    simp only [readText, if_pos hlen, hgets, hpiece]
    obtain hlong | hshort := lt_or_ge n line.length
    · -- the line goes on behind the piece
      obtain ⟨hdrop, hnot⟩ := hfirst.drop hlong
      have hlength : (text ++ line.take n).length = b.allocatedLen - 1 := by
        rw [length_append, length_take_of_le hlong.le]
        omega
      have hgoes : ¬ ((line.take n).length < step - 1 ∨
          (text ++ line.take n).getLast? = some '\n') := by
        have htake : line.take n ≠ [] := by
          rw [← length_pos_iff, length_take_of_le hlong.le]
          exact hpos
        rintro (hshort | hlast)
        · rw [length_take_of_le hlong.le] at hshort
          omega
        · rw [getLast?_append_of_ne_nil _ htake] at hlast
          exact hnot (mem_of_getLast? hlast)
      have hjoin : text ++ line.take n ++ line.drop n = text ++ line := by
        rw [append_assoc, take_append_drop]
      rw [if_neg hgoes, hlength]
      rw [← hjoin] at hne hfits ⊢
      have hstart : b.allocatedLen - 1 < (text ++ line.take n ++ line.drop n).length := by
        rw [hjoin, ← hlength, length_append, length_append, length_take_of_le hlong.le]
        omega
      refine ih _ _ hdrop hne (fun h => hnul (mem_of_mem_drop h)) ?_ ?_ ?_ fun k => ?_
      · rw [length_drop]
        omega
      · exact hfits 0 hstart
      · rw [hlength]
        exact (StringAllocator.lt_allocate _ _).le
      · exact hfits (k + 1)
    · rw [take_of_length_le hshort, drop_of_length_le hshort, nil_append]
      split
      · refine ⟨b, rfl, ?_⟩
        rw [length_append]
        omega
      · next hgoes =>
        have hlast : line.getLast? ≠ some '\n' := fun h => hgoes (.inr (by simp [h]))
        obtain rfl := hfirst.rest_eq hlast
        exact ⟨_, readText_end hne, (le_add_right _ _).trans (StringAllocator.lt_allocate _ _).le⟩

theorem grown_spec (hlen : b.len < maxLength) :
    b.grown.len < maxLength ∧ step ≤ b.grown.allocatedLen := by
  rw [grown]
  split
  · exact ⟨(by decide : step < maxLength), (StringAllocator.lt_allocate _ _).le⟩
  · next hbig => exact ⟨hlen, not_lt.mp hbig⟩

theorem readText_grown (hfirst : First line rest) (hne : line ≠ []) (hnul : '\x00' ∉ line)
    (hlen : b.len < maxLength) (hfits : b.grown.Fits line.length) :
    ∃ b', readText ((line ++ rest).length + 1) b.grown [] (line ++ rest) = (some line, b', rest) ∧
      line.length ≤ b'.allocatedLen := by
  have hgrown := grown_spec hlen
  refine readText_first [] line hfirst hne hnul ?_ hgrown.1 ?_ hfits
  · rw [length_append]
    omega
  · rw [length_nil, zero_add]
    exact hgrown.2

/-- **A line is read as a whole**, without its newline, if it is not too long. -/
theorem readTextLine_line (hnewline : '\n' ∉ line) (hnul : '\x00' ∉ line)
    (hcr : line.getLast? ≠ some '\r') (hmax : line.length + step < maxLength)
    (hlen : b.len < maxLength) :
    ∃ b', b.readTextLine (line ++ '\n' :: rest) = (some line, b', rest) ∧ b'.len < maxLength := by
  have hfits : b.grown.Fits (line ++ ['\n']).length := fits_of_le (by simp; omega)
  obtain ⟨b', hread, -⟩ := readText_grown (first_newline hnewline) (by simp) (by simpa using hnul)
    hlen hfits
  rw [append_assoc, singleton_append] at hread
  refine ⟨b'.setSize line.length, ?_, (le_add_right _ _).trans_lt hmax⟩
  rw [readTextLine, hread]
  have hstrip : stripLast '\n' (line ++ ['\n']) = line := by
    rw [stripLast, if_pos (by simp), dropLast_concat]
  simp only [finishLine, hstrip]
  rw [stripLast, if_neg hcr]

/-! ### The indices -/

inductive IndexFault
  | outside
  deriving DecidableEq

def readChecked (b : LineBuffer) (file : Text) :
    Except IndexFault (Option Text × LineBuffer × Text) :=
  match readText (file.length + 1) b.grown [] file with
  | (none, b, file) => .ok (none, b, file)
  | (some text, b, file) =>
    if stripLast '\n' text = [] ∨ b.allocatedLen < text.length then .error .outside
    else .ok (b.finishLine text file)

def readAll : ℕ → LineBuffer → Text → Except IndexFault (List (Option Text))
  | 0, _, _ => .ok []
  | n + 1, b, file => do
    let (line, b, file) ← b.readChecked file
    let lines ← readAll n b file
    .ok (line :: lines)

def withoutEnd (line : Text) : Text :=
  if line.getLast? = some '\n' then stripLast '\r' line.dropLast else line

def fileLines : ℕ → Text → List (Option Text)
  | 0, _ => []
  | n + 1, file =>
    (if file = [] then none else some (withoutEnd (nextLine file).1)) ::
      fileLines n (nextLine file).2

/-- The line is not empty, does not end with a carriage return alone, and fits. -/
structure Good (b : LineBuffer) (file : Text) : Prop where
  newline : (nextLine file).1 ≠ ['\n']
  cr : (nextLine file).1.getLast? ≠ some '\r'
  length : (withoutEnd (nextLine file).1).length < maxLength
  fits : b.grown.Fits (nextLine file).1.length

/-- Each line that is read is good. -/
def AllGood : ℕ → LineBuffer → Text → Prop
  | 0, _, _ => True
  | n + 1, b, file => b.Good file ∧ (b.readChecked file).Yields fun r => AllGood n r.2.1 r.2.2

/-- **What a call returns** for a good line. -/
theorem readChecked_succeeds (hlen : b.len < maxLength) (hnul : '\x00' ∉ file) (h : b.Good file) :
    (b.readChecked file).Succeeds fun r =>
      r.1 = (if file = [] then none else some (withoutEnd (nextLine file).1)) ∧
        r.2.2 = (nextLine file).2 ∧ r.2.1.len < maxLength := by
  obtain ⟨hfirst, happend⟩ := nextLine_spec file
  obtain ⟨hnewline, hcr, hlength, hfits⟩ := h
  generalize nextLine file = r at *
  obtain ⟨line, rest⟩ := r
  subst happend
  by_cases hnil : line = []
  · subst hnil
    obtain rfl : rest = [] := hfirst
    have hread : readText 1 b.grown [] [] = (none, b.grown, []) := by
      simp [readText, gets, (grown_spec hlen).1]
    rw [readChecked, append_nil, length_nil, hread]
    exact .ok ⟨rfl, rfl, (grown_spec hlen).1⟩
  · obtain ⟨b', hread, hroom⟩ := readText_grown hfirst hnil
      (fun hmem => hnul (mem_append_left _ hmem)) hlen hfits
    have hstrip : stripLast '\n' line ≠ [] ∧
        stripLast '\r' (stripLast '\n' line) = withoutEnd line := by
      by_cases hlast : line.getLast? = some '\n'
      · obtain ⟨line, rfl⟩ := getLast?_eq_some_iff.mp hlast
        simp only [stripLast, withoutEnd, hlast, if_true, dropLast_concat]
        exact ⟨fun hempty => hnewline (by simp [hempty]), trivial⟩
      · simp [stripLast, withoutEnd, hlast, hnil, hcr]
    rw [readChecked, hread]
    dsimp only
    rw [if_neg (by simp [hstrip.1, hroom]), if_neg (by simp [hnil])]
    refine .ok ⟨congrArg some hstrip.2, rfl, ?_⟩
    show (stripLast '\r' (stripLast '\n' line)).length < maxLength
    rwa [hstrip.2]

/-- **When the lines of a file are read**: as long as they are good. -/
theorem readAll_of_allGood (hlen : b.len < maxLength) (hnul : '\x00' ∉ file)
    (h : AllGood n b file) : readAll n b file = .ok (fileLines n file) := by
  induction n generalizing b file with
  | zero => rfl
  | succ n ih =>
    obtain ⟨⟨line, b', rest⟩, hread, hline, hrest, hlen'⟩ := readChecked_succeeds hlen hnul h.1
    have hnul' : '\x00' ∉ rest := fun hmem => hnul
      ((nextLine_spec file).2 ▸ mem_append_right _ (hrest ▸ hmem))
    have hlines := ih hlen' hnul' (h.2 _ hread)
    rw [readAll, hread, fileLines, ← hline, ← hrest]
    simp [hlines]

end LineBuffer

theorem LineBuffer.readAll_of_allGood_crlf :
    readAll 3 ⟨0, 0⟩ "a\r\nb".toList = .ok [some "a".toList, some "b".toList, none] := by
  refine readAll_of_allGood (Nat.zero_lt_succ _) (by decide)
    ⟨⟨by decide, by decide, by decide, fits_of_le (by decide)⟩, ?_⟩
  rintro _ ⟨⟩
  refine ⟨⟨by decide, by decide, by decide, fits_of_le (by decide)⟩, ?_⟩
  rintro _ ⟨⟩
  exact ⟨⟨by decide, by decide, by decide, fits_of_le (by decide)⟩, fun _ _ => trivial⟩

theorem LineBuffer.readAll_empty_line : readAll 1 ⟨0, 0⟩ ['\n'] = .error .outside := by
  decide

/-- A file that is read line by line, and the buffer for its lines. -/
structure Reader where
  buffer : LineBuffer
  file : Text

namespace Reader

def Ready (r : Reader) : Prop :=
  r.buffer.len < LineBuffer.maxLength

/-- A line that is read as it was written. -/
structure Readable (line : Text) : Prop where
  newline : '\n' ∉ line
  nul : '\x00' ∉ line
  cr : line.getLast? ≠ some '\r'
  length : line.length + LineBuffer.step < LineBuffer.maxLength

variable [StringAllocator]

def readLine (r : Reader) : Option Text × Reader :=
  let (line, buffer, file) := r.buffer.readTextLine r.file
  (line, ⟨buffer, file⟩)

theorem readLine_eq {r : Reader} {line rest : Text} (hr : r.Ready) (hline : Readable line)
    (hfile : r.file = line ++ '\n' :: rest) :
    ∃ b, r.readLine = (some line, ⟨b, rest⟩) ∧ Ready ⟨b, rest⟩ := by
  obtain ⟨b, hread, hb⟩ : ∃ b, r.buffer.readTextLine (line ++ '\n' :: rest) =
      (some line, b, rest) ∧ Ready ⟨b, rest⟩ :=
    LineBuffer.readTextLine_line hline.newline hline.nul hline.cr hline.length hr
  refine ⟨b, ?_, hb⟩
  rw [readLine, hfile, hread]

theorem readLine_of_nil {r : Reader} (hr : r.Ready) (hfile : r.file = []) :
    ∃ r', r.readLine = (none, r') := by
  rw [readLine, hfile, LineBuffer.readTextLine, LineBuffer.readText,
    if_pos (LineBuffer.grown_spec hr).1]
  exact ⟨_, rfl⟩

def linesFrom : ℕ → Reader → List Text
  | 0, _ => []
  | rounds + 1, r =>
    match r.readLine with
    | (some line, r) => line :: linesFrom rounds r
    | (none, _) => []

def lines (r : Reader) : List Text :=
  linesFrom (2 * r.file.length + 2) r

theorem linesFrom_eq {ls : List Text} {rounds : ℕ} {r : Reader} (hr : r.Ready)
    (hls : ∀ line ∈ ls, Readable line) (hfile : r.file = ls.flatMap fun line => line ++ ['\n'])
    (hrounds : ls.length < rounds) : linesFrom rounds r = ls := by
  induction ls generalizing rounds r with
  | nil =>
    obtain ⟨rounds, rfl⟩ := exists_eq_succ_of_ne_zero (ne_of_gt hrounds)
    obtain ⟨r', hread⟩ := readLine_of_nil hr hfile
    rw [linesFrom, hread]
  | cons line ls ih =>
    obtain ⟨rounds, rfl⟩ := exists_eq_succ_of_ne_zero (ne_of_gt (zero_lt_of_lt hrounds))
    rw [forall_mem_cons] at hls
    rw [flatMap_cons, append_assoc, singleton_append] at hfile
    obtain ⟨b, hread, hb⟩ := readLine_eq hr hls.1 hfile
    rw [linesFrom, hread]
    exact congrArg (line :: ·) (ih hb hls.2 rfl (lt_of_succ_lt_succ hrounds))

/-- **The lines of a file** are read as they were written. -/
theorem lines_eq {ls : List Text} {r : Reader} (hr : r.Ready) (hls : ∀ line ∈ ls, Readable line)
    (hfile : r.file = ls.flatMap fun line => line ++ ['\n']) : r.lines = ls := by
  have hlength : ∀ ls : List Text, ls.length ≤ (ls.flatMap fun line => line ++ ['\n']).length := by
    intro ls
    induction ls with
    | nil => exact le_rfl
    | cons line ls ih =>
      rw [flatMap_cons, length_append, length_append, length_cons, length_singleton]
      omega
  refine linesFrom_eq hr hls hfile ?_
  have hle := hlength ls
  rw [hfile]
  omega

end Reader

end Mpd
