import Mpd.Client.Fifo
import Mpd.Client.Process

/-!
# Reading the lines of a client

`client_read.c`: each time the socket becomes readable, what has arrived is read into the FIFO
buffer of the client, and all complete lines in it are processed. A client that fills the buffer
without ending a line is closed.

What the client sends is a fixed stream of bytes. How much of it each read returns is arbitrary, up
to the room that is offered. What `client_process_line` does with a line is left open too: it
answers knowing all lines so far.

After each read the buffer holds the unfinished rest of what has been read (`Input.Fed`), so that
the lines processed do not depend on how the stream was cut into reads (`Input.readAll_lines`).
-/

namespace Mpd

open List

namespace Client

open Text (cut chomp beforeNul)

inductive ReadStatus
  /-- `G_IO_STATUS_NORMAL`: up to this many bytes are read -/
  | normal (bytes : ℕ)
  /-- `G_IO_STATUS_AGAIN`: nothing to read -/
  | again
  /-- `G_IO_STATUS_EOF`: the peer has disconnected -/
  | eof
  /-- `G_IO_STATUS_ERROR` -/
  | error
  deriving DecidableEq, Repr

/-- Bytes are read, if any have been sent. -/
def ReadStatus.arrives : ReadStatus → Bool
  | normal bytes => 0 < bytes
  | _ => false

abbrev Verdict := List Text → CommandReturn × Bool

/-- The fields of `struct client` that concern input. -/
structure Input where
  /-- the buffer for reading lines from the channel -/
  buffer : FifoBuffer
  /-- the socket: what has been sent and not been read -/
  pending : Text
  /-- history variable: the lines passed to `client_process_line` -/
  lines : List Text
  /-- history variable: has a buffer overflow been logged? -/
  overflow : Bool

namespace Input

def init (size : ℕ) (memory : ℕ → Char) (stream : Text) : Input where
  buffer := .new size memory
  pending := stream
  lines := []
  overflow := false

def readLine (b : FifoBuffer) : Except FifoFault (Option (Text × FifoBuffer)) :=
  match b.read with
  | none => .ok none
  | some data =>
    match data.findIdx? (· = '\n') with
    | none => .ok none
    | some newline => do
      let b ← b.consume (newline + 1)
      pure (some (chomp (beforeNul (data.take newline)), b))

def processLines (verdict : Verdict) : ℕ → Input → Except FifoFault (CommandReturn × Input)
  | 0, c => .ok (.ok, c)
  | rounds + 1, c => do
    match ← readLine c.buffer with
    | none => .ok (.ok, c)
    | some (line, buffer) =>
      let c := { c with buffer := buffer, lines := c.lines ++ [line] }
      let (ret, expired) := verdict c.lines
      if ret = .kill ∨ ret = .close then .ok (ret, c)
      else if expired then .ok (.close, c)
      else processLines verdict rounds c

def inputReceived (verdict : Verdict) (c : Input) (bytesRead : ℕ) :
    Except FifoFault (CommandReturn × Input) := do
  let buffer ← c.buffer.append bytesRead
  let c := { c with buffer := buffer }
  processLines verdict (buffer.contents.length + 1) c

def readChars (c : Input) (bytes : ℕ) : Input × ℕ :=
  let data := c.pending.take bytes
  ({ c with buffer := c.buffer.store data, pending := c.pending.drop bytes }, data.length)

def read (verdict : Verdict) (c : Input) (status : ReadStatus) :
    Except FifoFault (CommandReturn × Input) :=
  let (buffer, room) := c.buffer.write
  let c := { c with buffer := buffer }
  match room with
  | none => .ok (.close, { c with overflow := true })
  | some maxLength =>
    match status with
    | .normal bytes =>
      let (c, bytesRead) := c.readChars (min bytes maxLength)
      c.inputReceived verdict bytesRead
    | .again => .ok (.ok, c)
    | .eof => .ok (.close, c)
    | .error => .ok (.close, c)

def readAll (verdict : Verdict) (c : Input) :
    List ReadStatus → Except FifoFault (CommandReturn × Input)
  | [] => .ok (.ok, c)
  | status :: reads => do
    let (ret, c) ← c.read verdict status
    if ret = .kill ∨ ret = .close then .ok (ret, c) else readAll verdict c reads

/-! ### Taking lines out of the buffer -/

variable {verdict : Verdict} {c : Input} {size : ℕ} {stream : Text}

theorem findIdx?_newline {line t : Text} (h : '\n' ∉ line) :
    (line ++ '\n' :: t).findIdx? (· = '\n') = some line.length := by
  induction line with
  | nil => simp [findIdx?_cons]
  | cons c line ih =>
    simp only [mem_cons, not_or] at h
    simp [findIdx?_cons, Ne.symm h.1, ih h.2]

theorem readLine_unfinished {b : FifoBuffer} (h : '\n' ∉ b.contents) : readLine b = .ok none := by
  rw [readLine, b.read_eq]
  split
  · rfl
  · next data hdata =>
    obtain rfl : b.contents = data := by
      split at hdata
      · cases hdata
      · exact Option.some.inj hdata
    have hnone : b.contents.findIdx? (· = '\n') = none := by
      rw [findIdx?_eq_none_iff]
      intro x hx
      simpa using fun hnl : x = '\n' => h (hnl ▸ hx)
    rw [hnone]

theorem readLine_line {b : FifoBuffer} {line t : Text} (hline : '\n' ∉ line)
    (h : b.contents = line ++ '\n' :: t) :
    (readLine b).Succeeds fun r => ∃ b', r = some (chomp (beforeNul line), b') ∧
      b'.contents = t ∧ b'.size = b.size := by
  have hread : b.read = some b.contents := by
    rw [b.read_eq, if_neg (by rw [h]; simp)]
  have hle : line.length + 1 ≤ b.contents.length := by
    rw [h]
    simp
  simp only [readLine, hread, h, findIdx?_newline hline]
  refine (FifoBuffer.consume_succeeds hle).bind fun b' ⟨hcontents, hsize, _⟩ => ?_
  refine .ok ⟨b', ?_, ?_, hsize⟩
  · rw [take_left]
  · rw [hcontents, h]
    simp

def lineText (line : Text) : Text :=
  chomp (beforeNul line)

/-- `client_process_line` **keeps** the client: no line closes it. -/
def Keeps (verdict : Verdict) : Prop :=
  ∀ lines, (verdict lines).1 ≠ .kill ∧ (verdict lines).1 ≠ .close ∧ (verdict lines).2 = false

theorem processLines_succeeds {rounds : ℕ} (hrounds : c.buffer.contents.length < rounds) :
    (processLines verdict rounds c).Succeeds fun r =>
      (r.2.pending = c.pending ∧ r.2.overflow = c.overflow ∧ r.2.buffer.size = c.buffer.size) ∧
      (r.1 = .ok ∧ r.2.buffer.contents = (cut c.buffer.contents).2 ∧
          r.2.lines = c.lines ++ (cut c.buffer.contents).1.map lineText ∨
        (r.1 = .kill ∨ r.1 = .close) ∧ ¬ Keeps verdict) := by
  induction rounds generalizing c with
  | zero => exact absurd hrounds (Nat.not_lt_zero _)
  | succ rounds ih =>
    rw [processLines]
    obtain hrest | ⟨line, t, hline, hcontents⟩ := Text.unfinished_or_line c.buffer.contents
    · rw [readLine_unfinished hrest, Text.cut_of_notMem hrest]
      refine .ok ⟨⟨rfl, rfl, rfl⟩, .inl ⟨rfl, rfl, ?_⟩⟩
      rw [map_nil, append_nil]
    · rw [hcontents, Text.cut_line hline]
      refine (readLine_line hline hcontents).bind ?_
      rintro _ ⟨b, rfl, hb, hsize⟩
      dsimp only
      generalize hv : verdict (c.lines ++ [chomp (beforeNul line)]) = v
      refine .ite (fun hclose => ?_) fun hopen => ?_
      · refine .ok ⟨⟨rfl, rfl, hsize⟩, .inr ⟨hclose, fun hkeeps => ?_⟩⟩
        have := hkeeps (c.lines ++ [chomp (beforeNul line)])
        rw [hv] at this
        exact hclose.elim this.1 this.2.1
      refine .ite (fun hexpired => ?_) fun _ => ?_
      · refine .ok ⟨⟨rfl, rfl, hsize⟩, .inr ⟨.inr rfl, fun hkeeps => ?_⟩⟩
        have := hkeeps (c.lines ++ [chomp (beforeNul line)])
        rw [hv] at this
        exact absurd hexpired (by rw [this.2.2]; decide)
      · have hlt : b.contents.length < rounds := by
          rw [hcontents, length_append, length_cons] at hrounds
          rw [hb]
          omega
        refine .mono (ih hlt) fun r ⟨⟨hpending, hoverflow, hsize'⟩, hr⟩ => ?_
        refine ⟨⟨hpending, hoverflow, hsize'.trans hsize⟩, hr.imp_left ?_⟩
        rintro ⟨hret, hrest, hlines⟩
        refine ⟨hret, ?_, ?_⟩
        · rw [hrest, hb]
        · rw [hlines, hb]
          simp [lineText]

/-! ### Reading the stream -/

/-- What holds between two reads: some part of the stream has been read, its complete lines have
been processed, and its unfinished rest is in the buffer. -/
structure Fed (size : ℕ) (stream : Text) (c : Input) : Prop where
  size_eq : c.buffer.size = size
  overflow_eq : c.overflow = false
  consumed : ∃ done, done ++ c.pending = stream ∧ c.buffer.contents = (cut done).2 ∧
    c.lines = (cut done).1.map lineText

theorem fed_init (size : ℕ) (memory : ℕ → Char) (stream : Text) :
    Fed size stream (init size memory stream) :=
  ⟨rfl, rfl, [], rfl, rfl, rfl⟩

def Closes (verdict : Verdict) (size : ℕ) (status : ReadStatus) (c : Input) : Prop :=
  c.overflow = true ∧ c.buffer.contents.length = size ∧ '\n' ∉ c.buffer.contents ∨
    c.overflow = false ∧ (¬ Keeps verdict ∨ status = .eof ∨ status = .error)

/-- **Step lemma.** A read takes bytes out of the socket and processes the lines it completes. If it
closes the client, the reason is one of `Closes`. -/
theorem read_succeeds (h : Fed size stream c) (status : ReadStatus) :
    (c.read verdict status).Succeeds fun r =>
      r.1 = .ok ∧ Fed size stream r.2 ∧
          r.2.pending.length ≤ c.pending.length - (if status.arrives then 1 else 0) ∨
        (r.1 = .kill ∨ r.1 = .close) ∧ Closes verdict size status r.2 ∧
          (r.2.overflow = true → c.buffer.contents.length = size) := by
  obtain ⟨hsize, hoverflow, done, hdone, hcontents, hlines⟩ := h
  obtain ⟨hkeep, hsize', hroom⟩ := c.buffer.write_spec
  rw [hsize] at hsize' hroom
  rw [read]
  generalize c.buffer.write = written at hkeep hsize' hroom
  obtain ⟨b, room⟩ := written
  dsimp only at hkeep hsize' hroom ⊢
  have hnewline : '\n' ∉ b.contents := by
    rw [hkeep, hcontents]
    exact Text.newline_notMem_rest done
  obtain ⟨rfl, hfull⟩ | ⟨maxLength, rfl, hpos, hfits⟩ := hroom
  · refine .ok (.inr ⟨.inr rfl, .inl ⟨rfl, ?_, hnewline⟩, fun _ => hfull⟩)
    rw [hkeep, hfull]
  cases status with
  | again =>
    refine .ok (.inl ⟨rfl, ⟨hsize', hoverflow, done, hdone, hkeep.trans hcontents, hlines⟩, ?_⟩)
    exact le_rfl
  | eof =>
    refine .ok (.inr ⟨.inr rfl, .inr ⟨hoverflow, .inr (.inl rfl)⟩, ?_⟩)
    exact fun h => absurd h (by rw [hoverflow]; decide)
  | error =>
    refine .ok (.inr ⟨.inr rfl, .inr ⟨hoverflow, .inr (.inr rfl)⟩, ?_⟩)
    exact fun h => absurd h (by rw [hoverflow]; decide)
  | normal bytes =>
    generalize hn : min bytes maxLength = n
    have hle : b.end_ + (c.pending.take n).length ≤ b.size := by
      rw [length_take, hsize']
      omega
    simp only [readChars, hn, inputReceived]
    refine (FifoBuffer.append_store_succeeds hle).bind fun b' ⟨hb', hbsize, _⟩ => ?_
    refine (processLines_succeeds (Nat.lt_succ_self _)).mono ?_
    rintro r ⟨⟨hpending, hoverflow', hrsize⟩, hopen | ⟨hclose, hnot⟩⟩
    · obtain ⟨hret, hrest, hrlines⟩ := hopen
      -- cutting what has been read before and now is cutting the new part behind the old rest
      have hcut := Text.cut_append done (c.pending.take n)
      rw [← hcontents, ← hkeep, ← hb'] at hcut
      refine .inl ⟨hret, ⟨hrsize.trans (hbsize.trans hsize'), hoverflow'.trans hoverflow,
        done ++ c.pending.take n, ?_, ?_, ?_⟩, ?_⟩
      · rw [hpending, append_assoc, take_append_drop, hdone]
      · rw [hrest, hcut]
      · rw [hrlines, hcut, hlines, map_append]
      · rw [hpending, length_drop, ReadStatus.arrives]
        split
        · next harrives =>
          have hbytes := of_decide_eq_true harrives
          omega
        · exact Nat.sub_le_sub_left (Nat.zero_le n) _
    · refine .inr ⟨hclose, .inr ⟨hoverflow'.trans hoverflow, .inl hnot⟩, fun h => absurd h ?_⟩
      rw [hoverflow'.trans hoverflow]
      decide

/-- **Run lemma.** What a read guarantees holds of any sequence of them; and as long as the buffer
never fills up, only a line or the socket closes the client. -/
theorem readAll_succeeds (h : Fed size stream c) (reads : List ReadStatus) :
    (c.readAll verdict reads).Succeeds fun r =>
      r.1 = .ok ∧ Fed size stream r.2 ∧
          r.2.pending.length ≤ c.pending.length - reads.countP ReadStatus.arrives ∨
        ∃ status ∈ reads, Closes verdict size status r.2 ∧
          (r.2.overflow = true → ∃ c', Fed size stream c' ∧ c'.buffer.contents.length = size) := by
  induction reads generalizing c with
  | nil => exact .ok (.inl ⟨rfl, h, le_rfl⟩)
  | cons status reads ih =>
    refine (read_succeeds h status).bind fun r hr => ?_
    obtain ⟨ret, c'⟩ := r
    dsimp only at hr ⊢
    obtain ⟨rfl, hfed, hpending⟩ | ⟨hclose, hreason, hfull⟩ := hr
    · rw [if_neg (by decide)]
      refine (ih hfed).mono fun r' hr' => hr'.imp ?_ ?_
      · rintro ⟨hret, hfed', hpending'⟩
        refine ⟨hret, hfed', hpending'.trans ?_⟩
        rw [countP_cons]
        omega
      · rintro ⟨status', hmem, hrest⟩
        exact ⟨status', mem_cons_of_mem _ hmem, hrest⟩
    · rw [if_pos hclose]
      exact .ok (.inr ⟨status, mem_cons_self, hreason, fun hoverflow => ⟨c, h, hfull hoverflow⟩⟩)

theorem Fed.length_lt (h : Fed size stream c)
    (hlines : ∀ line ∈ (cut stream).1, line.length + 1 ≤ size)
    (hrest : (cut stream).2.length < size) : c.buffer.contents.length < size := by
  obtain ⟨-, -, done, rfl, hcontents, -⟩ := h
  rw [hcontents]
  obtain ⟨line, hmem, hprefix⟩ | hprefix := Text.rest_prefix done c.pending
  · exact lt_of_le_of_lt hprefix.length_le (hlines line hmem)
  · exact lt_of_le_of_lt hprefix.length_le hrest

theorem readAll_short (hlines : ∀ line ∈ (cut stream).1, line.length + 1 ≤ size)
    (hrest : (cut stream).2.length < size) (hkeeps : Keeps verdict) (memory : ℕ → Char)
    {reads : List ReadStatus} (hreads : ∀ status ∈ reads, status ≠ .eof ∧ status ≠ .error) :
    ((init size memory stream).readAll verdict reads).Succeeds fun r =>
      r.1 = .ok ∧ r.2.overflow = false ∧
        (stream.length ≤ reads.countP ReadStatus.arrives → r.2.pending = []) ∧
        (r.2.pending = [] → r.2.lines = (cut stream).1.map lineText) := by
  refine (readAll_succeeds (fed_init size memory stream) reads).mono fun r hr => ?_
  obtain ⟨hret, hfed, hread⟩ | ⟨status, hmem, hreason, hfull⟩ := hr
  · obtain ⟨done, hdone, -, hprocessed⟩ := hfed.consumed
    refine ⟨hret, hfed.overflow_eq, fun hall => ?_, fun hpending => ?_⟩
    · rw [init, Nat.sub_eq_zero_of_le hall] at hread
      exact eq_nil_of_length_eq_zero (Nat.le_zero.mp hread)
    · rw [hprocessed, ← hdone, hpending, append_nil]
  · obtain ⟨hoverflow, -, -⟩ | ⟨-, hnot | heof | herror⟩ := hreason
    · obtain ⟨c', hfed, hlength⟩ := hfull hoverflow
      exact absurd hlength (hfed.length_lt hlines hrest).ne
    · exact absurd hkeeps hnot
    · exact absurd heof (hreads status hmem).1
    · exact absurd herror (hreads status hmem).2

theorem map_lineText {lines : List Text} (h : ∀ line ∈ lines, '\x00' ∉ line) :
    lines.map lineText = lines.map chomp :=
  map_congr_left fun line hline => by rw [lineText, Text.beforeNul_eq_self (h line hline)]

/-- **The lines do not depend on the reads.** A client is closed for a buffer overflow only when the
buffer is full without a newline in it. A stream without NUL whose lines, with their newlines, fit
into the buffer, and whose unfinished rest is shorter, never is: cut into reads in any two ways, it
gives the same lines, which are its complete lines in order, without white space at their ends. The
whole stream is read, at the latest when as many reads as it has bytes have found something. -/
theorem readAll_lines (size : ℕ) (memory : ℕ → Char) (stream : Text) (verdict : Verdict)
    (reads reads' : List ReadStatus) :
    (((init size memory stream).readAll verdict reads).Succeeds fun r =>
      r.2.overflow = true →
        r.2.buffer.contents.length = size ∧ '\n' ∉ r.2.buffer.contents) ∧
    ('\x00' ∉ stream → (∀ line ∈ (cut stream).1, line.length + 1 ≤ size) →
      (cut stream).2.length < size → Keeps verdict →
      (∀ status ∈ reads ++ reads', status ≠ .eof ∧ status ≠ .error) →
      ∃ c c', (init size memory stream).readAll verdict reads = .ok (.ok, c) ∧
        (init size memory stream).readAll verdict reads' = .ok (.ok, c') ∧
        c.overflow = false ∧ c'.overflow = false ∧
        (stream.length ≤ reads.countP ReadStatus.arrives → c.pending = []) ∧
        (stream.length ≤ reads'.countP ReadStatus.arrives → c'.pending = []) ∧
        (c.pending = [] → c'.pending = [] →
          c.lines = c'.lines ∧ c.lines = (cut stream).1.map chomp)) := by
  constructor
  · refine (readAll_succeeds (fed_init size memory stream) reads).mono fun r hr hoverflow => ?_
    obtain ⟨-, hfed, -⟩ | ⟨status, -, hreason, -⟩ := hr
    · exact absurd hoverflow (by rw [hfed.overflow_eq]; decide)
    · obtain ⟨-, hfull⟩ | ⟨hno, -⟩ := hreason
      · exact hfull
      · exact absurd hoverflow (by rw [hno]; decide)
  · intro hnul hlines hrest hkeeps hreads
    have hstatus : ∀ status ∈ reads, status ≠ .eof ∧ status ≠ .error :=
      fun status hmem => hreads status (mem_append_left _ hmem)
    have hstatus' : ∀ status ∈ reads', status ≠ .eof ∧ status ≠ .error :=
      fun status hmem => hreads status (mem_append_right _ hmem)
    obtain ⟨⟨_, c⟩, hrun, rfl, hoverflow, hread, hc⟩ :=
      readAll_short hlines hrest hkeeps memory hstatus
    obtain ⟨⟨_, c'⟩, hrun', rfl, hoverflow', hread', hc'⟩ :=
      readAll_short hlines hrest hkeeps memory hstatus'
    refine ⟨c, c', hrun, hrun', hoverflow, hoverflow', hread, hread', fun hall hall' => ?_⟩
    have hchomp : (cut stream).1.map lineText = (cut stream).1.map chomp :=
      map_lineText fun line hline hmem => hnul (Text.mem_of_mem_line hline hmem)
    exact ⟨(hc hall).trans (hc' hall').symm, (hc hall).trans hchomp⟩

theorem readAll_lines_two_ways :
    ∃ c c', (init 5 (fun _ => 'x') "ping\nab \r\nc".toList).readAll (fun _ => (.ok, false))
        (List.replicate 11 (.normal 5)) = .ok (.ok, c) ∧
      (init 5 (fun _ => 'x') "ping\nab \r\nc".toList).readAll (fun _ => (.ok, false))
        (.again :: List.replicate 11 (.normal 1)) = .ok (.ok, c') ∧
      c.overflow = false ∧ c'.overflow = false ∧ c.pending = [] ∧ c'.pending = [] ∧
      c.lines = ["ping".toList, "ab".toList] ∧ c'.lines = ["ping".toList, "ab".toList] := by
  obtain ⟨c, c', hrun, hrun', hoverflow, hoverflow', hread, hread', hlines⟩ :=
    (readAll_lines 5 (fun _ => 'x') "ping\nab \r\nc".toList (fun _ => (.ok, false))
      (replicate 11 (.normal 5)) (.again :: replicate 11 (.normal 1))).2
      (by decide) (by decide) (by decide) (fun _ => ⟨nofun, nofun, rfl⟩) (by decide)
  have hall := hread (by decide)
  have hall' := hread' (by decide)
  obtain ⟨heq, hc⟩ := hlines hall hall'
  have hcut : (cut "ping\nab \r\nc".toList).1.map chomp = ["ping".toList, "ab".toList] := by
    decide
  rw [hcut] at hc
  exact ⟨c, c', hrun, hrun', hoverflow, hoverflow', hall, hall', hc, heq ▸ hc⟩

end Input

end Client

end Mpd
