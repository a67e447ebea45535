import Mathlib.Algebra.Ring.Int.Defs
import Mathlib.Data.Int.Order.Basic
import Mathlib.Order.Nat
import Mpd.General.Runs

/-!
# Rewinding a stream

`input/rewind.c` wraps a stream that cannot seek. As long as not more than 64 KiB have been read, it
keeps what it has read in a buffer, and seeks within the buffer without asking the stream. The
buffer always begins at the beginning of the stream.

There are two offsets, that of the wrapper and that of the stream below, and two positions in the
buffer. While the buffer is in use, its end is at the offset of the stream below; the wrapper reads
from the buffer while its offset is smaller (`Inv`). What is read is the content of the stream at
the offset that can be seen (`rewind_of_reaches`).
-/

namespace Mpd

open List

namespace Rewind

/-! ### The source -/

inductive RewindFault
  /-- `r->head == (size_t)is->offset` -/
  | head
  /-- `r->tail == (size_t)r->input->offset` -/
  | tail
  /-- `is->ready` -/
  | ready
  | overflow
  deriving DecidableEq, Repr

inductive Whence
  | seekSet | seekCur | seekEnd
  deriving DecidableEq, Repr

def bufferSize : ℕ :=
  64 * 1024

/-- `struct input_rewind`, with the attributes of the stream below. -/
structure InputRewind where
  ready : Bool
  offset : ℕ
  inputReady : Bool
  inputOffset : ℕ
  head : ℕ
  tail : ℕ
  buffer : List UInt8

namespace InputRewind

def opened (inputReady : Bool) (head : ℕ) (buffer : List UInt8) : InputRewind where
  ready := false
  offset := 0
  inputReady := inputReady
  inputOffset := 0
  head := head
  tail := 0
  buffer := buffer

variable (r : InputRewind)

def readingFromBuffer : Prop :=
  0 < r.tail ∧ r.offset < r.inputOffset
  deriving Decidable

def copyAttributes : InputRewind :=
  { r with ready := r.inputReady, offset := r.inputOffset }

def update : InputRewind :=
  if r.readingFromBuffer then r else r.copyAttributes

def append (data : List UInt8) : Except RewindFault InputRewind :=
  if r.tail + data.length ≤ r.buffer.length then
    .ok { r with
      buffer := r.buffer.take r.tail ++ data ++ r.buffer.drop (r.tail + data.length)
      tail := r.tail + data.length }
  else .error .overflow

def keep (r : InputRewind) (data : List UInt8) : Except RewindFault InputRewind :=
  if bufferSize < r.inputOffset then
    -- disable buffering
    .ok { r with tail := 0 }
  else if r.tail = r.offset then do
    -- append to buffer
    let r ← r.append data
    if r.tail = r.inputOffset then .ok r else .error .tail
  else .ok r

def read (content : List UInt8) (r : InputRewind) (size : ℕ) (answer : Except ℤ ℕ) :
    Except RewindFault (Except ℤ (List UInt8) × InputRewind) :=
  if r.readingFromBuffer then
    -- buffered read
    if r.head ≠ r.offset then .error .head
    else if r.tail ≠ r.inputOffset then .error .tail
    else
      let size := if r.tail - r.head < size then r.tail - r.head else size
      .ok (.ok ((r.buffer.drop r.head).take size),
        { r with head := r.head + size, offset := r.offset + size })
  else
    -- pass method call to underlying stream
    match answer with
    | .error e => .ok (.error e, r)
    | .ok n => do
      let data := (content.drop r.inputOffset).take (min n size)
      let r ← keep { r with inputOffset := r.inputOffset + data.length } data
      .ok (.ok data, r.copyAttributes)

def seek (r : InputRewind) (offset : ℤ) (whence : Whence) (answer : Except ℤ ℕ) :
    Except RewindFault (ℤ × InputRewind) :=
  if !r.ready then .error .ready
  else if whence = .seekSet ∧ 0 < r.tail ∧ offset ≤ r.tail then
    -- buffered seek
    if r.readingFromBuffer ∧ r.head ≠ r.offset then .error .head
    else if r.tail ≠ r.inputOffset then .error .tail
    else .ok (0, { r with head := offset.toNat, offset := offset.toNat })
  else
    match answer with
    | .error e =>
      -- disable the buffer
      .ok (e, { r.copyAttributes with tail := 0 })
    | .ok n => .ok (0, { { r with inputOffset := n }.copyAttributes with tail := 0 })

end InputRewind

/-! ### Runs -/

inductive Operation
  | update
  | read (size : ℕ) (answer : Except ℤ ℕ)
  | seek (offset : ℤ) (answer : Except ℤ ℕ)

namespace Operation

def run (content : List UInt8) (op : Operation) (r : InputRewind) :
    Except RewindFault InputRewind :=
  match op with
  | update => .ok r.update
  | read size answer => do
    let (_, r) ← r.read content size answer
    .ok r
  | seek offset answer => do
    let (_, r) ← r.seek offset .seekSet answer
    .ok r

/-- A seek that succeeds goes where it is to go. -/
def Allowed : Operation → Prop
  | seek offset answer => 0 ≤ offset ∧ ∀ n, answer = .ok n → (n : ℤ) = offset
  | _ => True

end Operation

def start (head : ℕ) (buffer : List UInt8) : InputRewind :=
  (InputRewind.opened true head buffer).update

/-! ### The offsets and the buffer -/

/-- How the offsets, the positions and the buffer are related. -/
structure InputRewind.Inv (content : List UInt8) (r : InputRewind) : Prop where
  ready : r.ready = true
  inputReady : r.inputReady = true
  le : r.offset ≤ r.inputOffset
  disabled : r.tail = 0 → r.offset = r.inputOffset
  enabled : 0 < r.tail → r.tail = r.inputOffset
  head : r.offset < r.inputOffset → r.head = r.offset
  memory : r.buffer.length = bufferSize
  fits : r.tail ≤ bufferSize
  known : r.tail ≤ content.length
  buffer : r.buffer.take r.tail = content.take r.tail

section Steps

variable {content data : List UInt8} {r : InputRewind}

namespace InputRewind

section

variable (h : r.Inv content)
include h

theorem Inv.offset_eq (hnot : ¬ r.readingFromBuffer) : r.offset = r.inputOffset := by
  obtain hzero | hpos := Nat.eq_zero_or_pos r.tail
  · exact h.disabled hzero
  · exact h.le.antisymm (Nat.not_lt.mp fun hlt => hnot ⟨hpos, hlt⟩)

theorem Inv.disable {n : ℕ} :
    Inv content { { r with inputOffset := n }.copyAttributes with tail := 0 } where
  ready := h.inputReady
  inputReady := h.inputReady
  le := le_rfl
  disabled _ := rfl
  enabled hpos := absurd hpos (lt_irrefl 0)
  head hlt := absurd hlt (lt_irrefl n)
  memory := h.memory
  fits := Nat.zero_le _
  known := Nat.zero_le _
  buffer := rfl

theorem Inv.take_drop_buffer {head size : ℕ} (hsize : head + size ≤ r.tail) :
    (r.buffer.drop head).take size = (content.drop head).take size := by
  have hdrop : ∀ l : List UInt8,
      (l.drop head).take size = ((l.take r.tail).drop head).take size := by
    intro l
    rw [drop_take, take_take, Nat.min_eq_left (by omega)]
  rw [hdrop r.buffer, h.buffer, ← hdrop content]

theorem Inv.append_succeeds (htail : r.tail = r.inputOffset) {k : ℕ}
    (hdata : (content.drop r.inputOffset).take k = data)
    (hfits : r.inputOffset + data.length ≤ bufferSize) :
    (append { r with inputOffset := r.inputOffset + data.length } data).Succeeds fun r' =>
      r'.tail = r'.inputOffset ∧ r'.copyAttributes.Inv content ∧
        r'.inputOffset = r.inputOffset + data.length := by
  have hdata' : (content.drop r.tail).take data.length = data := by
    rw [← hdata, htail, length_take, take_eq_take_iff.mpr]
    omega
  have hlength : data.length ≤ content.length - r.tail := by
    rw [← hdata, htail, length_take, length_drop]
    omega
  have hmemory := h.memory
  have hknown := h.known
  have htake : (r.buffer.take r.tail).length = r.tail := by
    rw [length_take]
    omega
  rw [append, if_pos (by dsimp only; omega)]
  refine .ok ⟨?_, ⟨h.inputReady, h.inputReady, le_rfl, fun _ => rfl, fun _ => ?_,
    fun hlt => absurd hlt (lt_irrefl _), ?_, ?_, ?_, ?_⟩, rfl⟩
  · dsimp only
    rw [htail]
  · dsimp only [copyAttributes]
    rw [htail]
  · simp only [copyAttributes, length_append, htake, length_drop]
    omega
  · dsimp only [copyAttributes]
    omega
  · dsimp only [copyAttributes]
    omega
  · dsimp only [copyAttributes]
    rw [take_append_of_le_length (by rw [length_append, htake]),
      take_of_length_le (by rw [length_append, htake]), h.buffer, take_add, hdata']

theorem Inv.keep_succeeds (hoffset : r.offset = r.inputOffset) {k : ℕ}
    (hdata : (content.drop r.inputOffset).take k = data) :
    (keep { r with inputOffset := r.inputOffset + data.length } data).Succeeds fun r' =>
      r'.copyAttributes.Inv content ∧ r'.inputOffset = r.inputOffset + data.length := by
  rw [keep]
  split
  · exact .ok ⟨h.disable, rfl⟩
  · next hfits =>
    split
    · next htail =>
      refine (h.append_succeeds (htail.trans hoffset) hdata (Nat.not_lt.mp hfits)).bind ?_
      rintro r' ⟨htail', hinv, hinput⟩
      rw [if_pos htail']
      exact .ok ⟨hinv, hinput⟩
    · next hne =>
      -- the buffer has been given up before
      have hzero : r.tail = 0 := by
        by_contra hpos
        exact hne ((h.enabled (Nat.pos_of_ne_zero hpos)).trans hoffset.symm)
      refine .ok ⟨?_, rfl⟩
      have hinv := h.disable (n := r.inputOffset + data.length)
      rw [← hzero] at hinv
      exact hinv

/-- **Reading.** -/
theorem Inv.read_succeeds (size : ℕ) (answer : Except ℤ ℕ) :
    (r.read content size answer).Succeeds fun s => s.2.Inv content ∧
      ∀ data, s.1 = .ok data → data.length ≤ size ∧
        data = (content.drop r.offset).take data.length ∧ s.2.offset = r.offset + data.length := by
  rw [read.eq_def]
  split
  · next hbuffer =>
    obtain ⟨hpos, hlt⟩ := hbuffer
    have htail := h.enabled hpos
    have hhead := h.head hlt
    rw [if_neg (not_not.mpr hhead), if_neg (not_not.mpr htail)]
    generalize hk : (if r.tail - r.head < size then r.tail - r.head else size) = k
    have hkle : r.head + k ≤ r.tail ∧ k ≤ size := by
      split at hk <;> omega
    have hmemory := h.memory
    have hfits := h.fits
    have hlength : ((r.buffer.drop r.head).take k).length = k := by
      rw [length_take, length_drop]
      omega
    rw [Except.succeeds_ok]
    refine ⟨⟨h.ready, h.inputReady, ?_, ?_, h.enabled, ?_, h.memory, h.fits, h.known, h.buffer⟩, ?_⟩
    · dsimp only
      omega
    · exact fun hzero => absurd hzero hpos.ne'
    · dsimp only
      omega
    · rintro data ⟨⟩
      rw [hlength, h.take_drop_buffer hkle.1, hhead]
      exact ⟨hkle.2, rfl, rfl⟩
  · next hnot =>
    have hoffset := h.offset_eq hnot
    cases answer with
    | error e =>
      refine .ok ⟨h, ?_⟩
      rintro data ⟨⟩
    | ok n =>
      dsimp only
      generalize hdata : (content.drop r.inputOffset).take (min n size) = data
      have hread : data.length ≤ size ∧ data = (content.drop r.offset).take data.length := by
        rw [hoffset, ← hdata, length_take]
        refine ⟨by omega, take_eq_take_iff.mpr ?_⟩
        omega
      refine (h.keep_succeeds hoffset hdata).bind ?_
      rintro r' ⟨hinv, hinput⟩
      refine .ok ⟨hinv, ?_⟩
      rintro data' ⟨⟩
      exact ⟨hread.1, hread.2, hinput.trans (by rw [hoffset])⟩

/-- **Seeking.** Within the buffer it succeeds. -/
theorem Inv.seek_succeeds {offset : ℤ} (hoffset : 0 ≤ offset)
    {answer : Except ℤ ℕ} (hanswer : ∀ n, answer = .ok n → (n : ℤ) = offset) :
    (r.seek offset .seekSet answer).Succeeds fun s => s.2.Inv content ∧
      (0 < r.tail ∧ offset ≤ r.tail → s.1 = 0 ∧ (s.2.offset : ℤ) = offset) ∧
      (∀ n, answer = .ok n → s.1 = 0 ∧ (s.2.offset : ℤ) = offset) := by
  rw [seek.eq_def, h.ready, Bool.not_true, if_neg Bool.false_ne_true]
  split
  · next hbuffer =>
    obtain ⟨-, hpos, hle⟩ := hbuffer
    have htail := h.enabled hpos
    have hhead : ¬ (r.readingFromBuffer ∧ r.head ≠ r.offset) :=
      fun hnot => hnot.2 (h.head hnot.1.2)
    have htoNat := Int.toNat_of_nonneg hoffset
    rw [if_neg hhead, if_neg (not_not.mpr htail)]
    refine .ok ⟨⟨rfl, h.inputReady, ?_, ?_, h.enabled, fun _ => rfl, h.memory, h.fits, h.known,
      h.buffer⟩, fun _ => ⟨rfl, htoNat⟩, fun _ _ => ⟨rfl, htoNat⟩⟩
    · dsimp only
      omega
    · exact fun hzero => absurd hzero hpos.ne'
  · next hnot =>
    have houtside : ¬ (0 < r.tail ∧ offset ≤ r.tail) := fun hin => hnot ⟨rfl, hin⟩
    cases answer with
    | error e =>
      exact .ok ⟨h.disable, fun hin => absurd hin houtside, fun n hn => by cases hn⟩
    | ok n =>
      refine .ok ⟨h.disable, fun hin => absurd hin houtside, fun _ _ => ⟨rfl, hanswer n rfl⟩⟩

theorem Inv.update : r.update.Inv content := by
  rw [InputRewind.update]
  split
  · exact h
  · exact ⟨h.inputReady, h.inputReady, le_rfl, fun _ => rfl, h.enabled,
      fun hlt => absurd hlt (lt_irrefl _), h.memory, h.fits, h.known, h.buffer⟩

end

theorem inv_start (content : List UInt8) (head : ℕ) {buffer : List UInt8}
    (hbuffer : buffer.length = bufferSize) : (start head buffer).Inv content where
  ready := rfl
  inputReady := rfl
  le := le_rfl
  disabled _ := rfl
  enabled hpos := absurd hpos (lt_irrefl 0)
  head hlt := absurd hlt (lt_irrefl 0)
  memory := hbuffer
  fits := Nat.zero_le _
  known := Nat.zero_le _
  buffer := rfl

end InputRewind

/-- **What is read is the content of the stream at the visible offset**, whatever has been read and
sought before. Assertions hold, and within the buffer seeking succeeds. -/
theorem rewind_of_reaches {head : ℕ} {buffer : List UInt8} (hbuffer : buffer.length = bufferSize)
    (h : Reaches (Operation.run content) (fun op _ => op.Allowed) (start head buffer) r) :
    (∀ size answer, (r.read content size answer).Succeeds fun s =>
      ∀ data, s.1 = .ok data → data.length ≤ size ∧
        data = (content.drop r.offset).take data.length ∧ s.2.offset = r.offset + data.length) ∧
    ∀ offset answer, (Operation.seek offset answer).Allowed →
      (r.seek offset .seekSet answer).Succeeds fun s =>
        (0 < r.tail ∧ offset ≤ r.tail → s.1 = 0 ∧ (s.2.offset : ℤ) = offset) ∧
        (∀ n, answer = .ok n → s.1 = 0 ∧ (s.2.offset : ℤ) = offset) := by
  have hinv : r.Inv content := by
    refine h.invariant (InputRewind.inv_start content head hbuffer) ?_
    intro op t hallowed ht
    cases op with
    | update => exact .ok ht.update
    | read size answer =>
      refine (ht.read_succeeds size answer).yields.bind fun s hs => ?_
      exact .ok hs.1
    | seek offset answer =>
      refine (ht.seek_succeeds hallowed.1 hallowed.2).yields.bind fun s hs => ?_
      exact .ok hs.1
  refine ⟨fun size answer => ?_, fun offset answer hallowed => ?_⟩
  · exact (hinv.read_succeeds size answer).mono fun s hs => hs.2
  · exact (hinv.seek_succeeds hallowed.1 hallowed.2).mono fun s hs => hs.2

theorem run_read_three {buffer : List UInt8} (hbuffer : buffer.length = bufferSize) :
    Operation.run [7, 8, 9] (.read 10 (.ok 10)) (start 5 buffer) = .ok
      { ready := true, offset := 3, inputReady := true, inputOffset := 3, head := 5, tail := 3,
        buffer := [7, 8, 9] ++ buffer.drop 3 } := by
  simp [Operation.run, InputRewind.read, InputRewind.keep, InputRewind.append, start,
    InputRewind.opened, InputRewind.update, InputRewind.copyAttributes,
    InputRewind.readingFromBuffer, bufferSize, hbuffer, Except.ok_bind]

theorem rewind_of_reaches_again : ∃ r : InputRewind, r.offset = 0 ∧ r.tail = 3 ∧
      (r.read [7, 8, 9] 10 (.ok 0)).Succeeds fun s => ∀ data, s.1 = .ok data →
        data.length ≤ 10 ∧ data = [7, 8, 9].take data.length ∧ s.2.offset = 0 + data.length := by
  have hmemory : (replicate bufferSize (0 : UInt8)).length = bufferSize :=
    length_replicate
  have hreach : Reaches (Operation.run [7, 8, 9]) (fun op _ => op.Allowed)
      (start 5 (replicate bufferSize 0)) _ :=
    .step (a := .seek 0 (.error (-1)))
      (.step (a := .read 10 (.ok 10)) .refl trivial (run_read_three hmemory))
      ⟨le_rfl, fun n hn => by cases hn⟩ rfl
  exact ⟨_, rfl, rfl, (rewind_of_reaches hmemory hreach).1 10 (.ok 0)⟩

end Steps

end Rewind

end Mpd
