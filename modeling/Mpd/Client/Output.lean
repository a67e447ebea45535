import Mathlib.Algebra.Ring.Nat
import Mathlib.Algebra.Order.BigOperators.Group.List
import Mpd.General.Outcome
import Mpd.General.Text

/-!
# Sending output to a client

`client_write.c` and the writable event of `client_event.c`. Output passes three layers: a
command fills `send_buf`; a full or flushed `send_buf` goes to the socket directly; what the
socket does not take, and everything after it, waits in the queue of *deferred buffers*, which
is emptied when the socket becomes writable.

The socket is an arbitrary sequence of answers, one for each call of
`g_io_channel_write_chars`, so that what holds for every client holds for every socket. The
socket never takes more than it is given, and takes nothing when it would block.

`Output.stream` is what the client has been promised: the bytes the socket took, then the
deferred buffers, then `send_buf`. Writing appends to it and nothing else changes it, for as
long as the client has not expired (`Output.run_sound`).

The activity timer and log messages have no counterpart.
-/

namespace Mpd

open List

namespace Client

inductive Answer
  /-- `G_IO_STATUS_NORMAL`: up to this many bytes are taken -/
  | normal (bytes : ℕ)
  /-- `G_IO_STATUS_AGAIN`: the call would block -/
  | again
  /-- `G_IO_STATUS_EOF`: the client has disconnected -/
  | eof
  /-- `G_IO_STATUS_ERROR` -/
  | error
  deriving DecidableEq, Repr

inductive OutputFault
  /-- `assert(client->channel != NULL)` -/
  | noChannel
  /-- `assert(buf->size > 0)` -/
  | emptyBuffer
  /-- `assert(buf->size <= client->deferred_bytes)` -/
  | bufferSize
  /-- `assert(client->deferred_bytes >= (size_t)ret)` -/
  | partialSend
  /-- `assert(client->deferred_bytes >= decr)` -/
  | completeSend
  /-- `assert(client->deferred_bytes == 0)` -/
  | bytesLeft
  /-- `assert(length > 0)` -/
  | emptyWrite
  /-- `assert(g_queue_is_empty(client->deferred_send))` -/
  | buffersPending
  /-- `assert(client->send_buf_used < sizeof(client->send_buf))` -/
  | sendBufFull
  deriving DecidableEq, Repr

def sendBufSize : ℕ := 16384

def deferredHeader : ℕ := 8

/-- The fields of `struct client` that concern output. -/
structure Output where
  /-- `client_max_output_buffer_size` -/
  maxOutputBufferSize : ℕ
  /-- the socket: its answers to the calls to come -/
  answers : ℕ → Answer
  /-- what the socket has taken -/
  accepted : Text
  /-- `client_is_expired`: the channel has been given up -/
  expired : Bool
  /-- for output if the client is slow -/
  deferredSend : List Text
  /-- memory that `deferredSend` consumes -/
  deferredBytes : ℕ
  /-- the used part of `send_buf` -/
  sendBuf : Text

namespace Output

def init (maxOutputBufferSize : ℕ) (answers : ℕ → Answer) : Output where
  maxOutputBufferSize := maxOutputBufferSize
  answers := answers
  accepted := []
  expired := false
  deferredSend := []
  deferredBytes := 0
  sendBuf := []

variable (c : Output)

def setExpired : Output :=
  { c with expired := true }

def writeChars (data : Text) : Answer × Output :=
  (c.answers 0,
    { c with
      answers := fun k => c.answers (k + 1)
      accepted :=
        match c.answers 0 with
        | .normal bytes => c.accepted ++ data.take bytes
        | _ => c.accepted })

def writeDeferredBuffer (buffer : Text) : Except OutputFault (ℕ × Output) :=
  if c.expired then .error .noChannel
  else
    match c.writeChars buffer with
    | (.normal bytes, c) => .ok (min bytes buffer.length, c)
    | (.again, c) => .ok (0, c)
    | (.eof, c) => .ok (0, c.setExpired)
    | (.error, c) => .ok (0, c.setExpired)

def sendDeferred (c : Output) : List Text → Except OutputFault Output
  | [] => .ok { c with deferredSend := [] }
  | buf :: rest =>
    if buf.length = 0 then .error .emptyBuffer
    else if c.deferredBytes < buf.length then .error .bufferSize
    else do
      let (ret, c) ← c.writeDeferredBuffer buf
      if ret = 0 then .ok { c with deferredSend := buf :: rest }
      else if ret < buf.length then
        if c.deferredBytes < ret then .error .partialSend
        else
          .ok { c with
            deferredBytes := c.deferredBytes - ret
            deferredSend := buf.drop ret :: rest }
      else
        let decr := deferredHeader + buf.length
        if c.deferredBytes < decr then .error .completeSend
        else sendDeferred { c with deferredBytes := c.deferredBytes - decr } rest

def writeDeferred : Except OutputFault Output := do
  let c ← c.sendDeferred c.deferredSend
  if c.deferredSend = [] ∧ c.deferredBytes ≠ 0 then .error .bytesLeft else .ok c

def deferOutput (data : Text) : Except OutputFault Output :=
  if data.length = 0 then .error .emptyWrite
  else
    let c := { c with deferredBytes := c.deferredBytes + (deferredHeader + data.length) }
    if c.maxOutputBufferSize < c.deferredBytes then .ok c.setExpired
    else .ok { c with deferredSend := c.deferredSend ++ [data] }

def deferRest (data : Text) (bytesWritten : ℕ) : Except OutputFault Output :=
  if bytesWritten < data.length then c.deferOutput (data.drop bytesWritten) else .ok c

def writeDirect (data : Text) : Except OutputFault Output :=
  if c.expired then .error .noChannel
  else if data.length = 0 then .error .emptyWrite
  else if c.deferredSend ≠ [] then .error .buffersPending
  else
    match c.writeChars data with
    | (.normal bytes, c) => c.deferRest data (min bytes data.length)
    | (.again, c) => c.deferRest data 0
    | (.eof, c) => .ok c.setExpired
    | (.error, c) => .ok c.setExpired

def clearSendBuf : Output :=
  { c with sendBuf := [] }

def writeOutput : Except OutputFault Output :=
  if c.expired ∨ c.sendBuf = [] then .ok c
  else if c.deferredSend ≠ [] then do
    let c ← c.deferOutput c.sendBuf
    if c.expired then .ok c
    else
      -- try to flush the deferred buffers now
      clearSendBuf <$> c.writeDeferred
  else clearSendBuf <$> c.writeDirect c.sendBuf

def copyIn (data : Text) : Except OutputFault Output :=
  let c := { c with sendBuf := c.sendBuf ++ data }
  if sendBufSize ≤ c.sendBuf.length then c.writeOutput else .ok c

def fill : ℕ → Output → Text → Except OutputFault Output
  | 0, c, _ => .ok c
  | rounds + 1, c, buffer =>
    if buffer = [] ∨ c.expired then .ok c
    else if sendBufSize ≤ c.sendBuf.length then .error .sendBufFull
    else do
      let copylen := min (sendBufSize - c.sendBuf.length) buffer.length
      let c ← c.copyIn (buffer.take copylen)
      fill rounds c (buffer.drop copylen)

def write (buffer : Text) : Except OutputFault Output :=
  -- if the client is going to be closed, do nothing
  if c.expired then .ok c else fill buffer.length c buffer

def puts (s : Text) : Except OutputFault Output :=
  c.write s

def printf (text : Text) : Except OutputFault Output :=
  if text.length = 0 then .ok c else c.write text

def outEvent (writable : Bool) : Except OutputFault Output :=
  if c.expired then .ok c
  else if writable then c.writeDeferred
  else .ok c.setExpired

/-! ### What an unexpired client has been promised -/

def stream : Text :=
  c.accepted ++ c.deferredSend.flatten ++ c.sendBuf

def queuedSize (buffers : List Text) : ℕ :=
  (buffers.map fun buf => deferredHeader + buf.length).sum

@[simp]
theorem queuedSize_nil : queuedSize [] = 0 :=
  rfl

@[simp]
theorem queuedSize_cons (buf : Text) (rest : List Text) :
    queuedSize (buf :: rest) = deferredHeader + buf.length + queuedSize rest :=
  sum_cons

@[simp]
theorem queuedSize_append (l l' : List Text) :
    queuedSize (l ++ l') = queuedSize l + queuedSize l' := by
  simp [queuedSize]

/-- The socket and the queue of deferred buffers **carry** the bytes `w`: together they hold them
in order, no buffer is empty, and the memory of the buffers is accounted for. -/
structure Carries (w : Text) (c : Output) : Prop where
  bytes : c.accepted ++ c.deferredSend.flatten = w
  nonempty : [] ∉ c.deferredSend
  size : c.deferredBytes = queuedSize c.deferredSend

/-- All bytes `written` are on their way, and there is room in `send_buf`. -/
structure Sound (written : Text) (c : Output) : Prop where
  carries : ∃ w, Carries w c ∧ w ++ c.sendBuf = written
  room : c.sendBuf.length < sendBufSize

/-- What holds after the bytes `written`. -/
def Live (written : Text) (c : Output) : Prop :=
  c.expired = false → Sound written c

variable {c : Output} {w written data : Text}

theorem Sound.stream_eq (h : Sound written c) : c.stream = written := by
  obtain ⟨w, hw, rfl⟩ := h.carries
  rw [stream, hw.bytes]

/-! ### Sending deferred buffers -/

/-- The socket **took** these bytes, and nothing else has changed but its answers to come and
whether the client has expired. -/
structure Took (bytes : Text) (c c' : Output) : Prop where
  accepted : c'.accepted = c.accepted ++ bytes
  deferredSend : c'.deferredSend = c.deferredSend
  deferredBytes : c'.deferredBytes = c.deferredBytes
  sendBuf : c'.sendBuf = c.sendBuf

theorem writeDeferredBuffer_succeeds (hlive : c.expired = false) (buffer : Text) :
    (c.writeDeferredBuffer buffer).Succeeds fun r =>
      r.1 ≤ buffer.length ∧ Took (buffer.take r.1) c r.2 ∧ (r.1 ≠ 0 → r.2.expired = false) := by
  simp only [writeDeferredBuffer, hlive, Bool.false_eq_true, if_false, writeChars]
  cases hanswer : c.answers 0 with
  | normal bytes =>
    refine .ok ⟨Nat.min_le_right _ _, ⟨?_, rfl, rfl, rfl⟩, fun _ => rfl⟩
    rw [← take_take, take_length]
  | again | eof | error =>
    exact .ok ⟨Nat.zero_le _, ⟨(append_nil _).symm, rfl, rfl, rfl⟩, fun h => absurd rfl h⟩

/-- **The loop of `client_write_deferred`** passes a prefix of the queue to the socket and keeps
the rest, whether it stops at the end, at a partial send or at a dead socket. -/
theorem sendDeferred_succeeds {buffers : List Text} (hlive : c.expired = false)
    (hbytes : c.accepted ++ buffers.flatten = w) (hne : [] ∉ buffers)
    (hsize : c.deferredBytes = queuedSize buffers) :
    (c.sendDeferred buffers).Succeeds fun c' => Carries w c' ∧ c'.sendBuf = c.sendBuf := by
  induction buffers generalizing c with
  | nil => exact .ok ⟨⟨hbytes, not_mem_nil, hsize⟩, rfl⟩
  | cons buf rest ih =>
    rw [mem_cons, not_or] at hne
    obtain ⟨hbuf, hrest⟩ := hne
    have hpos : 0 < buf.length := length_pos_iff.mpr (Ne.symm hbuf)
    rw [queuedSize_cons] at hsize
    rw [flatten_cons] at hbytes
    rw [sendDeferred, if_neg hpos.ne', if_neg (by omega)]
    refine (writeDeferredBuffer_succeeds hlive buf).bind fun ⟨ret, c'⟩ ⟨hle, htook, hlive'⟩ => ?_
    dsimp only at hle htook hlive' ⊢
    refine .ite (fun hzero => ?_) fun hret => ?_
    · -- nothing was sent: the queue stays as it is
      refine .ok ⟨⟨?_, ?_, ?_⟩, htook.sendBuf⟩
      · rw [htook.accepted, hzero, take_zero, append_nil, flatten_cons, hbytes]
      · exact mem_cons.not.mpr (not_or.mpr ⟨hbuf, hrest⟩)
      · rw [queuedSize_cons, htook.deferredBytes, hsize]
    refine .ite (fun hpart => ?_) fun hall => ?_
    · -- a part of the buffer was sent
      rw [if_neg (by rw [htook.deferredBytes]; omega)]
      refine .ok ⟨⟨?_, ?_, ?_⟩, htook.sendBuf⟩
      · rw [htook.accepted, flatten_cons, append_assoc,
          ← append_assoc (take _ _), take_append_drop, hbytes]
      · refine mem_cons.not.mpr (not_or.mpr ⟨fun h => ?_, hrest⟩)
        exact absurd (drop_eq_nil_iff.mp h.symm) (by omega)
      · simp only [queuedSize_cons, length_drop, htook.deferredBytes]
        omega
    · -- the whole buffer was sent
      rw [if_neg (by rw [htook.deferredBytes]; omega)]
      refine .mono (ih ?_ ?_ hrest ?_) fun c'' h => ⟨h.1, h.2.trans htook.sendBuf⟩
      · exact hlive' hret
      · rw [htook.accepted, take_of_length_le (by omega), append_assoc, hbytes]
      · simp only [htook.deferredBytes]
        omega

/-- **`client_write_deferred`** changes nothing but where the bytes are. -/
theorem writeDeferred_succeeds (hlive : c.expired = false) (h : Carries w c) :
    c.writeDeferred.Succeeds fun c' => Carries w c' ∧ c'.sendBuf = c.sendBuf := by
  refine (sendDeferred_succeeds hlive h.bytes h.nonempty h.size).bind fun c' ⟨h', hbuf⟩ => ?_
  refine .ite (fun ⟨hempty, hne⟩ => absurd ?_ hne) fun _ => ?_
  · rw [h'.size, hempty, queuedSize_nil]
  · exact .ok ⟨h', hbuf⟩

/-! ### Deferring output and writing it directly -/

/-- **`client_defer_output`** queues the data, or expires the client. -/
theorem deferOutput_succeeds (hdata : data ≠ []) (h : Carries w c) :
    (c.deferOutput data).Succeeds fun c' =>
      (c'.expired = false → Carries (w ++ data) c') ∧ c'.sendBuf = c.sendBuf := by
  rw [deferOutput, if_neg (by rwa [length_eq_zero_iff])]
  refine .branch ?_ ?_ <;> rw [Except.succeeds_ok]
  · exact ⟨fun hlive => (nomatch hlive), rfl⟩
  · refine ⟨fun _ => ⟨?_, ?_, ?_⟩, rfl⟩
    · simp only [flatten_append, flatten_singleton]
      rw [← append_assoc, h.bytes]
    · simp only [mem_append, mem_singleton, not_or]
      exact ⟨h.nonempty, hdata.symm⟩
    · simp only [queuedSize_append, queuedSize_cons, queuedSize_nil, h.size, Nat.add_zero]

theorem deferRest_succeeds {bytes : ℕ} (hle : bytes ≤ data.length)
    (h : Carries (w ++ data.take bytes) c) :
    (c.deferRest data bytes).Succeeds fun c' => c'.expired = false → Carries (w ++ data) c' := by
  have hsplit : w ++ data = w ++ data.take bytes ++ data.drop bytes := by
    rw [append_assoc, take_append_drop]
  rw [hsplit]
  refine .ite (fun hlt => ?_) fun hge => ?_
  · exact (deferOutput_succeeds (drop_eq_nil_iff.not.mpr (by omega)) h).mono fun c' h' => h'.1
  · rw [drop_of_length_le (by omega), append_nil]
    exact .ok fun _ => h

/-- **`client_write_direct`**: with nothing deferred, the data goes to the socket or is
deferred. -/
theorem writeDirect_succeeds (hlive : c.expired = false) (hdata : data ≠ [])
    (hempty : c.deferredSend = []) (h : Carries w c) :
    (c.writeDirect data).Succeeds fun c' => c'.expired = false → Carries (w ++ data) c' := by
  have hw : c.accepted = w := by rw [← h.bytes, hempty, flatten_nil, append_nil]
  -- after the socket has taken a first part of the data
  have taken : ∀ (bytes : Text) (c' : Output), c'.accepted = c.accepted ++ bytes →
      c'.deferredSend = c.deferredSend → c'.deferredBytes = c.deferredBytes →
      Carries (w ++ bytes) c' := by
    intro bytes c' haccepted hqueue hcount
    refine ⟨?_, ?_, ?_⟩
    · rw [haccepted, hqueue, hempty, flatten_nil, append_nil, hw]
    · rw [hqueue]
      exact h.nonempty
    · rw [hcount, hqueue, h.size]
  rw [writeDirect, if_neg (by rw [hlive]; decide), if_neg (by rwa [length_eq_zero_iff]),
    if_neg (not_not.mpr hempty), writeChars]
  cases hanswer : c.answers 0 with
  | normal bytes =>
    refine deferRest_succeeds (Nat.min_le_right _ _) (taken _ _ ?_ rfl rfl)
    rw [← take_take, take_length]
  | again =>
    exact deferRest_succeeds (Nat.zero_le _) (taken _ _ (append_nil _).symm rfl rfl)
  | eof => exact .ok fun hlive' => nomatch hlive'
  | error => exact .ok fun hlive' => nomatch hlive'

/-- **`client_write_output`** moves the contents of `send_buf` on. -/
theorem writeOutput_succeeds (h : c.expired = false → Carries w c) :
    c.writeOutput.Succeeds fun c' =>
      c'.expired = false → Carries (w ++ c.sendBuf) c' ∧ c'.sendBuf = [] := by
  refine .ite (fun hstop => ?_) fun hgo => ?_
  · refine .ok fun hlive => ?_
    have hnil : c.sendBuf = [] := hstop.resolve_left (by rw [hlive]; exact Bool.false_ne_true)
    rw [hnil, append_nil]
    exact ⟨h hlive, rfl⟩
  rw [not_or, Bool.not_eq_true] at hgo
  obtain ⟨hlive, hdata⟩ := hgo
  refine .ite (fun _ => ?_) fun hempty => ?_
  · refine (deferOutput_succeeds hdata (h hlive)).bind fun c₁ ⟨h₁, _⟩ => ?_
    refine .ite (fun hexp => ?_) fun hlive₁ => ?_
    · exact .ok fun hlive' => absurd hlive' (by rw [hexp]; decide)
    · rw [Bool.not_eq_true] at hlive₁
      refine (writeDeferred_succeeds hlive₁ (h₁ hlive₁)).bind fun c₂ ⟨h₂, _⟩ => ?_
      exact .ok fun _ => ⟨⟨h₂.bytes, h₂.nonempty, h₂.size⟩, rfl⟩
  · refine (writeDirect_succeeds hlive hdata (not_not.mp hempty) (h hlive)).bind fun c₁ h₁ => ?_
    exact .ok fun hlive' =>
      ⟨⟨(h₁ hlive').bytes, (h₁ hlive').nonempty, (h₁ hlive').size⟩, rfl⟩

/-! ### Whole writes, flushes and events -/

theorem sound_writeOutput (h : Live written c) :
    c.writeOutput.Succeeds (Live written) := by
  by_cases hlive : c.expired = false
  · obtain ⟨w, hw, rfl⟩ := (h hlive).carries
    refine (writeOutput_succeeds fun _ => hw).mono fun c' h' hlive' => ?_
    obtain ⟨hcarries, hnil⟩ := h' hlive'
    refine ⟨⟨_, hcarries, ?_⟩, ?_⟩
    · rw [hnil, append_nil]
    · rw [hnil]
      decide
  · rw [writeOutput, if_pos (Or.inl (Bool.not_eq_false _ ▸ hlive))]
    exact .ok fun hlive' => absurd hlive' hlive

theorem copyIn_succeeds (h : Carries w c) :
    (c.copyIn data).Succeeds (Live (w ++ c.sendBuf ++ data)) := by
  have h' : Carries w { c with sendBuf := c.sendBuf ++ data } := ⟨h.bytes, h.nonempty, h.size⟩
  refine .ite (fun _ => ?_) fun hfits => ?_
  · refine (writeOutput_succeeds fun _ => h').mono fun c' hc' hlive => ?_
    obtain ⟨hcarries, hnil⟩ := hc' hlive
    refine ⟨⟨_, hcarries, ?_⟩, by rw [hnil]; decide⟩
    rw [hnil, append_nil, append_assoc]
  · exact .ok fun _ =>
      ⟨⟨w, h', (append_assoc _ _ _).symm⟩, not_le.mp hfits⟩

theorem fill_succeeds {rounds : ℕ} {buffer : Text} (hrounds : buffer.length ≤ rounds)
    (h : Live written c) : (fill rounds c buffer).Succeeds (Live (written ++ buffer)) := by
  induction rounds generalizing c written buffer with
  | zero =>
    obtain rfl : buffer = [] := length_eq_zero_iff.mp (by omega)
    rw [append_nil]
    exact .ok h
  | succ rounds ih =>
    refine .ite (fun hstop => ?_) fun hgo => ?_
    · refine .ok fun hlive => ?_
      have hnil : buffer = [] := hstop.resolve_right (by rw [hlive]; exact Bool.false_ne_true)
      rw [hnil, append_nil]
      exact h hlive
    rw [not_or, Bool.not_eq_true] at hgo
    obtain ⟨hbuf, hlive⟩ := hgo
    have hroom := (h hlive).room
    obtain ⟨w, hw, rfl⟩ := (h hlive).carries
    rw [if_neg (by omega)]
    refine (copyIn_succeeds hw).bind fun c' h' => (ih ?_ h').mono fun c'' h'' hlive'' => ?_
    · rw [length_drop]
      omega
    · have hrest := h'' hlive''
      rwa [append_assoc _ (buffer.take _), take_append_drop] at hrest

theorem sound_write (buffer : Text) (h : Live written c) :
    (c.write buffer).Succeeds (Live (written ++ buffer)) := by
  refine .ite (fun hexp => ?_) fun _ => fill_succeeds le_rfl h
  exact .ok fun hlive => absurd hlive (by rw [hexp]; decide)

theorem sound_outEvent (writable : Bool) (h : Live written c) :
    (c.outEvent writable).Succeeds (Live written) := by
  refine .ite (fun _ => .ok h) fun hlive => ?_
  rw [Bool.not_eq_true] at hlive
  refine .branch ?_ ?_
  · obtain ⟨w, hw, rfl⟩ := (h hlive).carries
    refine (writeDeferred_succeeds hlive hw).mono fun c' ⟨h', hbuf⟩ _ => ?_
    exact ⟨⟨w, h', by rw [hbuf]⟩, hbuf ▸ (h hlive).room⟩
  · exact .ok fun hlive' => nomatch hlive'

/-! ### Whole runs -/

inductive Op
  | puts (s : Text)
  | printf (text : Text)
  | writeOutput
  | outEvent (writable : Bool)

def Op.run : Op → Output → Except OutputFault Output
  | .puts s, c => c.puts s
  | .printf text, c => c.printf text
  | .writeOutput, c => c.writeOutput
  | .outEvent writable, c => c.outEvent writable

def Op.bytes : Op → Text
  | .puts s => s
  | .printf text => text
  | .writeOutput => []
  | .outEvent _ => []

def runAll (c : Output) : List Op → Except OutputFault Output
  | [] => .ok c
  | op :: ops => do
    let c ← op.run c
    runAll c ops

/-- **Step lemma.** Every operation adds the bytes it writes, and meets no failing assertion. -/
theorem Op.run_succeeds (op : Op) (h : Live written c) :
    (op.run c).Succeeds (Live (written ++ op.bytes)) := by
  cases op with
  | puts s => exact sound_write s h
  | printf text =>
    refine .ite (fun hnil => ?_) fun _ => sound_write text h
    rw [length_eq_zero_iff] at hnil
    rw [Op.bytes, hnil, append_nil]
    exact .ok h
  | writeOutput =>
    rw [Op.bytes, append_nil]
    exact sound_writeOutput h
  | outEvent writable =>
    rw [Op.bytes, append_nil]
    exact sound_outEvent writable h

theorem runAll_succeeds (ops : List Op) (h : Live written c) :
    (c.runAll ops).Succeeds (Live (written ++ ops.flatMap Op.bytes)) := by
  induction ops generalizing c written with
  | nil =>
    rw [flatMap_nil, append_nil]
    exact .ok h
  | cons op ops ih =>
    rw [flatMap_cons, ← append_assoc]
    exact (op.run_succeeds h).bind fun c' h' => ih h'

theorem sound_init (maxOutputBufferSize : ℕ) (answers : ℕ → Answer) :
    Sound [] (init maxOutputBufferSize answers) :=
  ⟨⟨[], ⟨rfl, not_mem_nil, rfl⟩, rfl⟩, (by decide : 0 < sendBufSize)⟩

/-- **No byte is lost, repeated or reordered.** Whatever is written to a new client, however it
is flushed and however its socket behaves, no assertion fails; and unless the client has expired,
the bytes taken by the socket, the deferred buffers and `send_buf` are what has been written, and
`deferred_bytes` is the memory of the deferred buffers. -/
theorem run_sound (maxOutputBufferSize : ℕ) (answers : ℕ → Answer) (ops : List Op) :
    ((init maxOutputBufferSize answers).runAll ops).Succeeds fun c =>
      c.expired = false →
        c.accepted ++ c.deferredSend.flatten ++ c.sendBuf = ops.flatMap Op.bytes ∧
          c.deferredBytes = (c.deferredSend.map fun buf => deferredHeader + buf.length).sum := by
  refine (runAll_succeeds ops fun _ => sound_init _ _).mono fun c h hlive => ?_
  obtain ⟨w, hw, hstream⟩ := (h hlive).carries
  exact ⟨(h hlive).stream_eq, hw.size⟩

end Output

end Client

end Mpd
