import Mpd.Client.Fifo
import Mpd.Input.Stream

/-!
# Reading lines from a stream

`text_input_stream.c` reads a stream into a buffer of 4096 bytes and returns its lines. A line that
ends with the stream is ended by a newline that is put into the buffer, and so is a line for which
there is no room, since both are recognised by a read of zero bytes. But the room is what is behind
the line, which is moved to the front of the buffer only if it reaches the very end; so lines are
divided that are much shorter than the buffer (`not_readLines_divided`). If this does not happen,
the lines of the stream are read (`readLines_of_allFit`).
-/

namespace Mpd

open List

/-- `struct text_input_stream`. -/
structure TextInput where
  buffer : FifoBuffer
  is : InputStream Char

namespace TextInput

/-! ### The source -/

def new (is : InputStream Char) (memory : ℕ → Char) : TextInput :=
  ⟨.new 4096 memory, is⟩

def fill (t : TextInput) : Except FifoFault (ℕ × TextInput) :=
  let (b, room) := t.buffer.write
  if 2 ≤ room.getD 0 then do
    let (data, is) := t.is.read (room.getD 0 - 1)
    let b ← (b.store data).append data.length
    .ok (data.length, ⟨b, is⟩)
  else .ok (0, { t with buffer := b })

def readLoop : ℕ → TextInput → Except FifoFault (Option Text × TextInput)
  | 0, _ => .error .rounds
  | rounds + 1, t => do
    let (nbytes, t) ← t.fill
    match t.buffer.read with
    | none => .ok (none, t)
    | some src =>
      if '\n' ∈ src then do
        let line := src.takeWhile (· ≠ '\n')
        let b ← t.buffer.consume (line.length + 1)
        .ok (some (Text.beforeNul (Text.chomp line)), { t with buffer := b })
      else if nbytes = 0 then
        if t.buffer.write.2 = none then .error .null
        else do
          let b ← (t.buffer.write.1.store ['\n']).append 1
          readLoop rounds { t with buffer := b }
      else readLoop rounds t

def read (t : TextInput) : Except FifoFault (Option Text × TextInput) :=
  readLoop (t.is.rest.length + 2) t

def readLines : ℕ → TextInput → Except FifoFault (List (Option Text))
  | 0, _ => .ok []
  | n + 1, t => do
    let (line, t) ← t.read
    let lines ← readLines n t
    .ok (line :: lines)

/-! ### The lines of a stream -/

def firstLine (s : Text) : Option Text :=
  if s = [] then none else some (Text.chomp (s.takeWhile (· ≠ '\n')))

def lines : ℕ → Text → List (Option Text)
  | 0, _ => []
  | n + 1, s => firstLine s :: lines n (s.dropWhile (· ≠ '\n')).tail

def pending (t : TextInput) : Text :=
  t.buffer.contents ++ t.is.rest

def Fits (t : TextInput) : Prop :=
  '\n' ∈ t.buffer.contents ∨
    if '\n' ∈ t.is.rest then t.buffer.writeEnd + (t.is.rest.takeWhile (· ≠ '\n')).length < 4095
    else t.buffer.writeEnd + t.is.rest.length ≤ 4095

/-- Each line fits into the buffer. -/
def AllFit : ℕ → TextInput → Prop
  | 0, _ => True
  | n + 1, t => t.Fits ∧ t.read.Yields fun r => AllFit n r.2

def added (t : TextInput) : Text :=
  if t.buffer.writeEnd + 2 ≤ t.buffer.size then
    (t.is.read (t.buffer.size - t.buffer.writeEnd - 1)).1
  else []

variable {t : TextInput} {line tail : Text} {rounds : ℕ}

theorem fill_succeeds (t : TextInput) : t.fill.Succeeds fun r => r.1 = t.added.length ∧
    r.2.buffer.contents = t.buffer.contents ++ t.added ∧ t.added ++ r.2.is.rest = t.is.rest ∧
    r.2.buffer.size = t.buffer.size ∧ r.2.buffer.end_ = t.buffer.writeEnd + t.added.length := by
  obtain ⟨hcontents, hsize, -⟩ := t.buffer.write_spec
  obtain ⟨hend, hroom⟩ := t.buffer.write_eq
  have hlength : t.buffer.write.2.getD 0 = t.buffer.size - t.buffer.writeEnd := by
    rw [hroom]
    split <;> simp [*]
  rw [fill, added]
  dsimp only
  rw [hlength]
  split_ifs with h h' h'
  · have hlen := t.is.length_read (t.buffer.size - t.buffer.writeEnd - 1)
    refine (FifoBuffer.append_store_succeeds (by omega)).bind fun b hb => .ok ?_
    rw [hb.1, hb.2.1, hb.2.2, hcontents, hsize, hend]
    exact ⟨rfl, rfl, t.is.append_rest_read _, rfl, rfl⟩
  · omega
  · omega
  · exact .ok ⟨rfl, by simpa using hcontents, rfl, hsize, hend⟩

theorem takeWhile_line (hline : '\n' ∉ line) :
    (line ++ '\n' :: tail).takeWhile (· ≠ '\n') = line := by
  rw [takeWhile_append_of_pos fun c hc => decide_eq_true (ne_of_mem_of_not_mem hc hline)]
  simp

theorem readLoop_of_line (h : t.buffer.contents ++ t.added = line ++ '\n' :: tail)
    (hline : '\n' ∉ line) :
    (readLoop (rounds + 1) t).Succeeds fun r => r.1 = some (Text.beforeNul (Text.chomp line)) ∧
      r.2.buffer.contents = tail ∧ t.added ++ r.2.is.rest = t.is.rest ∧
      r.2.buffer.size = t.buffer.size ∧ r.2.buffer.end_ = t.buffer.writeEnd + t.added.length := by
  refine t.fill_succeeds.bind fun r hr => ?_
  obtain ⟨nbytes, t'⟩ := r
  obtain ⟨-, hcontents, hrest, hsize, hend⟩ := hr
  dsimp only at hcontents hrest hsize hend ⊢
  rw [h] at hcontents
  rw [t'.buffer.read_eq, hcontents, if_neg (by simp)]
  dsimp only
  rw [if_pos (by simp), takeWhile_line hline]
  refine (FifoBuffer.consume_succeeds (by simp [hcontents])).bind fun b hb => .ok ⟨rfl, ?_⟩
  rw [hb.1, hb.2.1, hb.2.2, hcontents]
  exact ⟨by simp, hrest, hsize, hend⟩

theorem readLoop_of_added (h : '\n' ∉ t.buffer.contents ++ t.added) (hadded : t.added ≠ []) :
    ∃ t', readLoop (rounds + 1) t = readLoop rounds t' ∧
      t'.buffer.contents = t.buffer.contents ++ t.added ∧ t.added ++ t'.is.rest = t.is.rest ∧
      t'.buffer.size = t.buffer.size ∧ t'.buffer.writeEnd = t.buffer.writeEnd + t.added.length := by
  obtain ⟨⟨nbytes, t'⟩, hfill, hn, hcontents, hrest, hsize, hend⟩ := t.fill_succeeds
  dsimp only at hn hcontents hrest hsize hend
  have hne : t'.buffer.contents ≠ [] := by simp [hcontents, hadded]
  have hlt : t'.buffer.end_ < t'.buffer.size := by
    have hroom : t.buffer.writeEnd + 2 ≤ t.buffer.size := by
      by_contra hroom
      exact hadded (if_neg hroom)
    have hlen := t.is.length_read (t.buffer.size - t.buffer.writeEnd - 1)
    rw [added, if_pos hroom] at hend
    omega
  refine ⟨t', ?_, hcontents, hrest, hsize, hend ▸ FifoBuffer.writeEnd_eq hne hlt⟩
  rw [← hcontents] at h
  simp [readLoop, hfill, t'.buffer.read_eq, hne, h, hn, hadded]

theorem readLoop_of_ended (h : '\n' ∉ t.buffer.contents) (hne : t.buffer.contents ≠ [])
    (hadded : t.added = []) (hlt : t.buffer.writeEnd < t.buffer.size) :
    ∃ t', readLoop (rounds + 1) t = readLoop rounds t' ∧
      t'.buffer.contents = t.buffer.contents ++ ['\n'] ∧ t'.is.rest = t.is.rest ∧
      t'.buffer.size = t.buffer.size := by
  obtain ⟨⟨nbytes, t'⟩, hfill, hn, hcontents, hrest, hsize, hend⟩ := t.fill_succeeds
  rw [hadded] at hn hcontents hrest hend
  simp only [append_nil, length_nil, nil_append, Nat.add_zero] at *
  rw [← hcontents] at h hne
  have hwrite := t'.buffer.write_eq
  rw [FifoBuffer.writeEnd_eq hne (by omega), if_neg (by omega)] at hwrite
  obtain ⟨hcontents', hsize', -⟩ := t'.buffer.write_spec
  have hroom : t'.buffer.write.1.end_ + ['\n'].length ≤ t'.buffer.write.1.size := by
    rw [length_singleton]
    omega
  obtain ⟨b, hb, hnew, hsize'', -⟩ := FifoBuffer.append_store_succeeds hroom
  refine ⟨{ t' with buffer := b }, ?_, ?_, hrest, ?_⟩
  · rw [length_singleton] at hb
    simp [readLoop, hfill, t'.buffer.read_eq, hne, h, hn, hwrite.2, hb]
  · rw [hnew, hcontents', hcontents]
  · rw [hsize'', hsize', hsize]

theorem added_ne_nil (hroom : t.buffer.writeEnd + 2 ≤ t.buffer.size) (hrest : t.is.rest ≠ []) :
    t.added ≠ [] := by
  have hlen := t.is.length_read (t.buffer.size - t.buffer.writeEnd - 1)
  have hpos := length_pos_iff.mpr hrest
  rw [added, if_pos hroom, ← length_pos_iff]
  omega

theorem length_le_of_append_eq {s rest : Text} (h : s ++ rest = line ++ '\n' :: tail)
    (hs : '\n' ∉ s) : s.length ≤ line.length := by
  obtain ⟨u, rfl, -⟩ | ⟨u, rfl, hu⟩ := append_eq_append_iff.mp h
  · simp
  · cases u with
    | nil => simp
    | cons c u =>
      obtain ⟨rfl, -⟩ := cons.inj hu
      simp at hs

/-- **A line that fits** is read, however much is read at once. -/
theorem readLoop_line (hsize : t.buffer.size = 4096) (hpending : t.pending = line ++ '\n' :: tail)
    (hline : '\n' ∉ line) (hfits : '\n' ∈ t.buffer.contents ∨
      t.buffer.writeEnd + line.length < 4095 + t.buffer.contents.length)
    (hrounds : t.is.rest.length < rounds) :
    (readLoop rounds t).Succeeds fun r => r.1 = some (Text.beforeNul (Text.chomp line)) ∧
      r.2.pending = tail ∧ r.2.buffer.size = 4096 := by
  induction rounds generalizing t with
  | zero => cases hrounds
  | succ rounds ih =>
    by_cases hmem : '\n' ∈ t.buffer.contents ++ t.added
    · obtain ⟨l, tl, heq, hl⟩ := eq_append_cons_of_mem hmem
      refine (readLoop_of_line heq hl).mono fun r hr => ?_
      obtain ⟨hr, hcontents, hrest, hsize', -⟩ := hr
      have hsplit : l ++ '\n' :: (tl ++ r.2.is.rest) = line ++ '\n' :: tail := by
        rw [← hpending, pending, ← hrest, ← append_assoc, heq, append_assoc, cons_append]
      obtain rfl : l = line := by
        rw [← takeWhile_line hl, hsplit, takeWhile_line hline]
      have htail : tl ++ r.2.is.rest = tail := by simpa using hsplit
      exact ⟨hr, by rw [pending, hcontents, htail], hsize'.trans hsize⟩
    · have hnot : '\n' ∉ t.buffer.contents := fun h => hmem (mem_append_left _ h)
      have hroom := hfits.resolve_left hnot
      have hle := length_le_of_append_eq hpending hnot
      have hadded : t.added ≠ [] := by
        refine added_ne_nil (by omega) fun hnil => hnot ?_
        rw [pending, hnil, append_nil] at hpending
        simp [hpending]
      obtain ⟨t', heq, hcontents, hrest, hsize', hend⟩ := readLoop_of_added hmem hadded
      have hpos := length_pos_iff.mpr hadded
      have hlen := congrArg length hrest
      rw [length_append] at hlen
      rw [heq]
      refine ih (hsize'.trans hsize) ?_ (.inr ?_) (by omega)
      · rw [pending, hcontents, append_assoc, hrest]
        exact hpending
      · rw [hend, hcontents, length_append]
        omega

/-- **The last line**, if it has no newline. -/
theorem readLoop_last (hsize : t.buffer.size = 4096) (hlast : '\n' ∉ t.pending)
    (hfits : t.buffer.writeEnd + t.is.rest.length ≤ 4095)
    (hrounds : t.is.rest.length + 1 < rounds) :
    (readLoop rounds t).Succeeds fun r =>
      r.1 = (if t.pending = [] then none else some (Text.beforeNul (Text.chomp t.pending))) ∧
      r.2.pending = [] ∧ r.2.buffer.size = 4096 := by
  induction rounds generalizing t with
  | zero => cases hrounds
  | succ rounds ih =>
    by_cases hadded : t.added = []
    · have hnil : t.is.rest = [] := by
        by_contra hne
        have hpos := length_pos_iff.mpr hne
        exact added_ne_nil (by omega) hne hadded
      have hcontents : t.pending = t.buffer.contents := by rw [pending, hnil, append_nil]
      rw [hcontents] at hlast ⊢
      by_cases hempty : t.buffer.contents = []
      · rw [if_pos hempty]
        obtain ⟨⟨nbytes, t'⟩, hfill, -, hcontents', hrest, hsize', -⟩ := t.fill_succeeds
        rw [hadded, hempty] at hcontents'
        rw [hadded, hnil] at hrest
        refine ⟨(none, t'), ?_, rfl, ?_, hsize'.trans hsize⟩
        · simp [readLoop, hfill, t'.buffer.read_eq, hcontents']
        · simpa [pending, hcontents'] using hrest
      · obtain ⟨t', heq, hcontents', hrest, hsize'⟩ :=
          readLoop_of_ended hlast hempty hadded (by omega)
        rw [heq, if_neg hempty]
        refine readLoop_line (hsize'.trans hsize) ?_ hlast (.inl ?_) ?_
        · rw [pending, hcontents', hrest, hnil, append_nil]
        · simp [hcontents']
        · rw [hrest, hnil, length_nil]
          omega
    · have hpos := length_pos_iff.mpr hadded
      have hpart : '\n' ∉ t.buffer.contents ++ t.added := by
        obtain ⟨r, -, -, -, hrest, -⟩ := t.fill_succeeds
        rw [pending, ← hrest, ← append_assoc] at hlast
        exact fun h => hlast (mem_append_left _ h)
      obtain ⟨t', heq, hcontents, hrest, hsize', hend⟩ :=
        readLoop_of_added hpart hadded
      have hpending : t'.pending = t.pending := by
        rw [pending, hcontents, append_assoc, hrest, pending]
      have hlen := congrArg length hrest
      rw [length_append] at hlen
      rw [heq, ← hpending]
      exact ih (hsize'.trans hsize) (hpending ▸ hlast) (by omega) (by omega)

/-- **What a call returns**, if there is room. -/
theorem read_succeeds (hsize : t.buffer.size = 4096) (hnul : '\x00' ∉ t.pending) (hfits : t.Fits) :
    t.read.Succeeds fun r => r.1 = firstLine t.pending ∧
      r.2.pending = (t.pending.dropWhile (· ≠ '\n')).tail ∧ r.2.buffer.size = 4096 := by
  have hstring : ∀ s, s <+: t.pending → Text.beforeNul (Text.chomp s) = Text.chomp s := fun s hs =>
    Text.beforeNul_eq_self fun h => hnul (hs.subset ((List.rdropWhile_prefix _ s).subset h))
  by_cases hmem : '\n' ∈ t.pending
  · obtain ⟨line, tail, heq, hline⟩ := eq_append_cons_of_mem hmem
    have hroom : '\n' ∈ t.buffer.contents ∨
        t.buffer.writeEnd + line.length < 4095 + t.buffer.contents.length := by
      refine or_iff_not_imp_left.mpr fun hnot => ?_
      have hrest : '\n' ∈ t.is.rest := (mem_append.mp hmem).resolve_left hnot
      have hfirst := hfits.resolve_left hnot
      rw [if_pos hrest] at hfirst
      have hlength : line.length =
          t.buffer.contents.length + (t.is.rest.takeWhile (· ≠ '\n')).length := by
        rw [← takeWhile_line hline, ← heq, pending, takeWhile_append_of_pos fun c hc =>
          decide_eq_true (ne_of_mem_of_not_mem hc hnot), length_append]
      omega
    refine (readLoop_line hsize heq hline hroom (by omega)).mono fun r hr => ?_
    rw [hr.1, hr.2.1, hstring line (heq ▸ prefix_append _ _), heq, firstLine,
      takeWhile_line hline, dropWhile_append_of_pos fun c hc =>
        decide_eq_true (ne_of_mem_of_not_mem hc hline)]
    exact ⟨by simp, by simp, hr.2.2⟩
  · have hroom : t.buffer.writeEnd + t.is.rest.length ≤ 4095 := by
      rw [pending, mem_append, not_or] at hmem
      simpa [hmem.2] using hfits.resolve_left hmem.1
    refine (readLoop_last hsize hmem hroom (by omega)).mono fun r hr => ?_
    have hall : ∀ c ∈ t.pending, decide (c ≠ '\n') = true := fun c hc =>
      decide_eq_true (ne_of_mem_of_not_mem hc hmem)
    rw [hr.1, hr.2.1, firstLine, hstring _ (prefix_refl _),
      takeWhile_eq_self_iff.mpr hall, dropWhile_eq_nil_iff.mpr hall]
    exact ⟨rfl, rfl, hr.2.2⟩

theorem readLines_eq {n : ℕ} (hsize : t.buffer.size = 4096) (hnul : '\x00' ∉ t.pending)
    (hfits : AllFit n t) : readLines n t = .ok (lines n t.pending) := by
  induction n generalizing t with
  | zero => rfl
  | succ n ih =>
    obtain ⟨⟨line, t'⟩, hread, hline, hpending, hsize'⟩ := read_succeeds hsize hnul hfits.1
    have hnul' : '\x00' ∉ t'.pending := fun h => hnul
      ((dropWhile_sublist _).subset (mem_of_mem_tail (hpending ▸ h)))
    have hrest := ih hsize' hnul' (hfits.2 _ hread)
    rw [readLines, hread, lines, ← hline, ← hpending]
    simp [hrest]

/-- **When the lines of a stream are read**: as long as there is room in each call. -/
theorem readLines_of_allFit (is : InputStream Char) (memory : ℕ → Char) (n : ℕ)
    (hnul : '\x00' ∉ is.rest) (hfits : AllFit n (new is memory)) :
    readLines n (new is memory) = .ok (lines n is.rest) :=
  readLines_eq rfl hnul hfits

theorem readLines_of_allFit_short :
    readLines 3 (new ⟨"a \nb".toList, 0, true, fun _ => 1⟩ fun _ => ' ') =
      .ok [some "a".toList, some "b".toList, none] :=
  readLines_of_allFit _ _ 3 (by decide) ⟨.inr (by decide),
    .ok ⟨.inr (by decide), .ok ⟨.inr (by decide), fun _ _ => trivial⟩⟩⟩

/-- **A line is divided** where the buffer ends, if the buffer is filled at once. -/
theorem readLines_divided {is : InputStream Char} {u v : Text} (memory : ℕ → Char)
    (hrest : is.rest = line ++ '\n' :: (u ++ v)) (hline : '\n' ∉ line) (hu : '\n' ∉ u)
    (hne : u ≠ []) (hlen : line.length + 1 + u.length = 4095) (hoffers : 4095 ≤ is.offers 0) :
    (readLines 2 (new is memory)).Succeeds fun r =>
      r[1]? = some (some (Text.beforeNul (Text.chomp u))) := by
  have hadded : (new is memory).added = line ++ '\n' :: u := by
    have htake : (new is memory).added = is.rest.take (min 4095 (max 1 (is.offers 0))) := rfl
    have hprefix : is.rest = (line ++ '\n' :: u) ++ v := by simp [hrest]
    rw [htake, min_eq_left (by omega), hprefix, take_left' (by simp; omega)]
  have hlength : (new is memory).added.length = 4095 := by
    rw [hadded, length_append, length_cons]
    omega
  have hcall : (new is memory).read.Succeeds _ := readLoop_of_line hadded hline
  obtain ⟨⟨first, t⟩, hfirst, -, rfl, -, hsize, hend⟩ := hcall
  replace hsize : t.buffer.size = 4096 := hsize
  replace hend : t.buffer.end_ = 4095 := hend.trans ((Nat.zero_add _).trans hlength)
  dsimp only at *
  have hwrite : t.buffer.writeEnd = 4095 := (FifoBuffer.writeEnd_eq hne (by omega)).trans hend
  have hfull : t.added = [] := if_neg (by omega)
  obtain ⟨t', heq, hended, -, -⟩ := readLoop_of_ended hu hne hfull (by omega)
  have hline' : t'.buffer.contents ++ t'.added = t.buffer.contents ++ '\n' :: t'.added := by
    simp [hended]
  have hcall' : t.read.Succeeds _ := heq ▸ readLoop_of_line hline' hu
  obtain ⟨⟨second, t''⟩, hsecond, hu', -⟩ := hcall'
  refine ⟨[first, second], ?_, by simpa using hu'⟩
  simp [readLines, hfirst, hsecond]

def twoLines (m n : ℕ) : InputStream Char :=
  ⟨replicate m 'a' ++ '\n' :: replicate n 'b', 0, true, fun _ => 4096⟩

theorem lines_twoLines (m n : ℕ) :
    (lines 2 (twoLines m (n + 1)).rest)[1]? = some (some (replicate (n + 1) 'b')) := by
  have hrest : (twoLines m (n + 1)).rest =
      replicate m 'a' ++ '\n' :: replicate (n + 1) 'b' := rfl
  have ha : ∀ c ∈ replicate m 'a', decide (c ≠ '\n') = true := fun c hc =>
    eq_of_mem_replicate hc ▸ rfl
  have hb : ∀ c ∈ replicate (n + 1) 'b', decide (c ≠ '\n') = true := fun c hc =>
    eq_of_mem_replicate hc ▸ rfl
  rw [lines, hrest, dropWhile_append_of_pos ha]
  show some (firstLine (replicate (n + 1) 'b')) = _
  rw [firstLine, if_neg (by simp), takeWhile_eq_self_iff.mpr hb, Text.chomp,
    rdropWhile_eq_self_iff.mpr fun h => by rw [getLast_replicate]; decide]

theorem not_readLines_divided : readLines 2 (new (twoLines 3000 2000) fun _ => ' ') ≠
      .ok (lines 2 (twoLines 3000 2000).rest) := by
  have hrest : (twoLines 3000 2000).rest = replicate 3000 'a' ++ '\n' ::
      (replicate 1094 'b' ++ replicate 906 'b') := by
    rw [← replicate_add]
    rfl
  have hnot {m : ℕ} {c : Char} (hc : c ≠ '\n') : '\n' ∉ replicate m c := fun h =>
    hc (eq_of_mem_replicate h).symm
  obtain ⟨r, hr, hsecond⟩ := readLines_divided (fun _ => ' ') hrest (hnot (by decide))
    (hnot (by decide)) (cons_ne_nil _ _) (by rw [length_replicate, length_replicate])
    (by decide)
  rw [hr]
  rintro ⟨⟩
  have hlength := congrArg length
    (Option.some.inj (Option.some.inj ((lines_twoLines 3000 1999).symm.trans hsecond)))
  have hle : (Text.beforeNul (Text.chomp (replicate 1094 'b'))).length ≤ 1094 := by
    refine ((List.takeWhile_prefix _).length_le.trans
      (List.rdropWhile_prefix _ _).length_le).trans ?_
    rw [length_replicate]
  rw [length_replicate] at hlength
  omega

end TextInput

end Mpd
