import Mpd.General.Runs
import Mpd.General.Text

/-!
# The FIFO buffer

`fifo_buffer.c`: a memory area whose used part is `[start, end)`. Data is written behind `end`
and appended, and consumed at `start`; the used part moves to the front only when the area is
full to its end. Clients read their input into such a buffer.

The indices are in order in every buffer (`start_le`, `end_le`), so that the assertions that say
so have no counterpart; those on arguments do. `FifoBuffer.contents` is the queue of bytes that the
buffer stands for.

Whatever is done with a buffer, in the order its functions are made for, it is a queue of at most
`size` bytes (`isQueue_of_reaches`). One thing ends this: with a new size of 0, which is enough for
an empty buffer, `fifo_buffer_realloc` frees it.
-/

namespace Mpd

open List

/-- `struct fifo_buffer`. -/
structure FifoBuffer where
  size : ℕ
  start : ℕ
  end_ : ℕ
  buffer : ℕ → Char
  start_le : start ≤ end_
  end_le : end_ ≤ size

inductive FifoFault
  /-- `assert(buffer->start + length <= buffer->end)` -/
  | consume (length : ℕ)
  /-- `assert(buffer->end + length <= buffer->size)` -/
  | append (length : ℕ)
  /-- `assert(buffer != NULL)` -/
  | null
  /-- `assert(new_size >= buffer->end - buffer->start)`, or `assert(buffer->end <= new_size)` -/
  | realloc (newSize : ℕ)
  /-- `assert(new_size > fifo_buffer_capacity(buffer))`, of `growing_fifo.c` -/
  | grow (length : ℕ)
  /-- `assert(max_length >= length)`, of `growing_fifo.c` -/
  | room (length : ℕ)
  /-- A bound on the rounds of a loop is too small. -/
  | rounds
  deriving DecidableEq, Repr

def region (memory : ℕ → Char) (start length : ℕ) : Text :=
  (range length).map fun i => memory (start + i)

@[simp]
theorem length_region (memory : ℕ → Char) (start length : ℕ) :
    (region memory start length).length = length := by
  simp [region]

theorem region_add (memory : ℕ → Char) (start m n : ℕ) :
    region memory start (m + n) = region memory start m ++ region memory (start + m) n := by
  simp [region, range_add, Function.comp_def, Nat.add_assoc]

theorem region_congr {memory memory' : ℕ → Char} {start start' length : ℕ}
    (h : ∀ i < length, memory (start + i) = memory' (start' + i)) :
    region memory start length = region memory' start' length :=
  map_congr_left fun i hi => h i (mem_range.mp hi)

def poke (memory : ℕ → Char) (start : ℕ) (data : Text) : ℕ → Char :=
  fun i => if start ≤ i then (data[i - start]?).getD (memory i) else memory i

theorem region_poke (memory : ℕ → Char) (start : ℕ) (data : Text) :
    region (poke memory start data) start data.length = data := by
  refine ext_getElem (length_region _ _ _) fun i h _ => ?_
  rw [length_region] at h
  simp [region, poke, h]

theorem region_poke_of_le {memory : ℕ → Char} {start length offset : ℕ} {data : Text}
    (h : start + length ≤ offset) :
    region (poke memory offset data) start length = region memory start length :=
  region_congr fun i hi => if_neg (by omega)

namespace FifoBuffer

def new (size : ℕ) (memory : ℕ → Char) : FifoBuffer where
  size := size
  start := 0
  end_ := 0
  buffer := memory
  start_le := le_rfl
  end_le := Nat.zero_le size

variable (b : FifoBuffer)

def contents : Text :=
  region b.buffer b.start (b.end_ - b.start)

theorem length_contents : b.contents.length = b.end_ - b.start :=
  length_region _ _ _

def clear : FifoBuffer :=
  { b with start := 0, end_ := 0, start_le := le_rfl, end_le := Nat.zero_le _ }

def read : Option Text :=
  if b.start = b.end_ then none else some b.contents

def consume (length : ℕ) : Except FifoFault FifoBuffer :=
  if h : b.start + length ≤ b.end_ then .ok { b with start := b.start + length, start_le := h }
  else .error (.consume length)

def move : FifoBuffer :=
  if b.start = 0 then b
  else
    { b with
      buffer := fun i => if i < b.end_ - b.start then b.buffer (b.start + i) else b.buffer i
      end_ := b.end_ - b.start
      start := 0
      start_le := Nat.zero_le _
      end_le := le_trans (Nat.sub_le _ _) b.end_le }

def write : FifoBuffer × Option ℕ :=
  if b.end_ = b.size then
    let b := b.move
    if b.end_ = b.size then (b, none) else (b, some (b.size - b.end_))
  else if 0 < b.start ∧ b.start = b.end_ then (b.clear, some b.size)
  else (b, some (b.size - b.end_))

def store (data : Text) : FifoBuffer :=
  { b with buffer := poke b.buffer b.end_ data }

def append (length : ℕ) : Except FifoFault FifoBuffer :=
  if h : b.end_ + length ≤ b.size then
    .ok { b with
      end_ := b.end_ + length
      start_le := le_trans b.start_le (Nat.le_add_right _ _)
      end_le := h }
  else .error (.append length)

/-! ### The buffer as a queue of bytes -/

variable {b b' : FifoBuffer}

theorem read_eq (b : FifoBuffer) : b.read = if b.contents = [] then none else some b.contents := by
  have h : b.start = b.end_ ↔ b.contents = [] := by
    rw [← length_eq_zero_iff, length_contents]
    have := b.start_le
    omega
  simp only [read, h]

theorem consume_succeeds {length : ℕ} (h : length ≤ b.contents.length) :
    (b.consume length).Succeeds fun b' =>
      b'.contents = b.contents.drop length ∧ b'.size = b.size ∧ b'.end_ = b.end_ := by
  rw [length_contents] at h
  have hle := b.start_le
  have hfits : b.start + length ≤ b.end_ := by omega
  rw [consume, dif_pos hfits]
  refine .ok ⟨?_, rfl, rfl⟩
  have hsplit : b.end_ - b.start = length + (b.end_ - (b.start + length)) := by omega
  rw [contents, contents, hsplit, region_add, drop_left' (length_region _ _ _)]

theorem contents_move (b : FifoBuffer) : b.move.contents = b.contents := by
  rw [move]
  split
  · rfl
  · refine region_congr fun i hi => ?_
    simp only [Nat.zero_add, Nat.sub_zero] at hi ⊢
    rw [if_pos hi]

theorem end_move (b : FifoBuffer) : b.move.end_ = b.end_ - b.start := by
  rw [move]
  split <;> simp [*]

theorem size_move (b : FifoBuffer) : b.move.size = b.size := by
  rw [move]
  split <;> rfl

theorem contents_clear (b : FifoBuffer) : b.clear.contents = [] :=
  rfl

/-- **`fifo_buffer_write`** keeps the contents. It refuses exactly when the buffer is full, and
otherwise offers the room behind `end`, which is not empty. -/
theorem write_spec (b : FifoBuffer) : b.write.1.contents = b.contents ∧ b.write.1.size = b.size ∧
      (b.write.2 = none ∧ b.contents.length = b.size ∨
        ∃ n, b.write.2 = some n ∧ 0 < n ∧ b.write.1.end_ + n = b.size) := by
  have hend := b.end_le
  rw [write]
  split
  · next hfull =>
    have hsize := b.size_move
    have hmove := b.end_move
    have hle := b.move.end_le
    dsimp only
    split
    · next hstill =>
      refine ⟨contents_move b, hsize, .inl ⟨rfl, ?_⟩⟩
      rw [length_contents]
      omega
    · refine ⟨contents_move b, hsize, .inr ⟨_, rfl, by omega, ?_⟩⟩
      rw [Nat.add_sub_cancel' hle, hsize]
  split
  · next hempty =>
    refine ⟨?_, rfl, .inr ⟨_, rfl, by omega, Nat.zero_add _⟩⟩
    rw [contents_clear, eq_comm, ← length_eq_zero_iff, length_contents]
    omega
  · exact ⟨rfl, rfl, .inr ⟨_, rfl, by omega, Nat.add_sub_cancel' hend⟩⟩

def writeEnd (b : FifoBuffer) : ℕ :=
  if b.start = b.end_ then 0 else if b.end_ = b.size then b.end_ - b.start else b.end_

theorem writeEnd_le (b : FifoBuffer) : b.writeEnd ≤ b.size := by
  have := b.end_le
  rw [writeEnd]
  split_ifs <;> omega

theorem writeEnd_eq (h : b.contents ≠ []) (hlt : b.end_ < b.size) : b.writeEnd = b.end_ := by
  have hne : b.start ≠ b.end_ := by
    rw [ne_eq, ← length_eq_zero_iff, length_contents] at h
    omega
  rw [writeEnd, if_neg hne, if_neg hlt.ne]

theorem write_eq (b : FifoBuffer) : b.write.1.end_ = b.writeEnd ∧
    b.write.2 = if b.writeEnd = b.size then none else some (b.size - b.writeEnd) := by
  have hend := b.end_le
  rw [write]
  split
  · next hfull =>
    have hw : b.writeEnd = b.end_ - b.start := by
      rw [writeEnd]
      split_ifs <;> omega
    dsimp only
    rw [hw, b.end_move, b.size_move]
    split <;> exact ⟨b.end_move, rfl⟩
  · next hroom =>
    split
    · next hempty =>
      have hw : b.writeEnd = 0 := if_pos hempty.2
      rw [hw, if_neg (by omega)]
      exact ⟨rfl, rfl⟩
    · next hempty =>
      have hw : b.writeEnd = b.end_ := by
        rw [writeEnd]
        split_ifs <;> omega
      rw [hw, if_neg hroom]
      exact ⟨rfl, rfl⟩

/-- **Data stored and appended** is added at the back. -/
theorem append_store_succeeds {data : Text} (h : b.end_ + data.length ≤ b.size) :
    ((b.store data).append data.length).Succeeds fun b' =>
      b'.contents = b.contents ++ data ∧ b'.size = b.size ∧ b'.end_ = b.end_ + data.length := by
  have hle := b.start_le
  have hfits : (b.store data).end_ + data.length ≤ (b.store data).size := h
  rw [append, dif_pos hfits]
  refine .ok ⟨?_, rfl, rfl⟩
  simp only [contents, store]
  have hsplit : b.end_ + data.length - b.start = b.end_ - b.start + data.length := by omega
  rw [hsplit, region_add, region_poke_of_le (by omega), Nat.add_sub_cancel' hle, region_poke]

def resize (b : FifoBuffer) (newSize : ℕ) (memory : ℕ → Char) (h : b.end_ ≤ newSize) :
    FifoBuffer :=
  { b with
    size := newSize
    buffer := fun i => if i < min b.size newSize then b.buffer i else memory i
    end_le := h }

def realloc (newSize : ℕ) (memory : ℕ → Char) :
    Option FifoBuffer → Except FifoFault (Option FifoBuffer)
  | none => .ok (if 0 < newSize then some (new newSize memory) else none)
  | some b =>
    if newSize < b.end_ - b.start then .error (.realloc newSize)
    else if newSize = 0 then .ok none
    else
      let b := if newSize < b.end_ then b.move else b
      if h : b.end_ ≤ newSize then .ok (some (b.resize newSize memory h))
      else .error (.realloc newSize)

theorem contents_resize {newSize : ℕ} (memory : ℕ → Char) (h : b.end_ ≤ newSize) :
    (b.resize newSize memory h).contents = b.contents := by
  refine region_congr fun i hi => if_pos ?_
  have := b.end_le
  simp only [resize] at hi ⊢
  omega

theorem realloc_succeeds {newSize : ℕ} (h : b.contents.length ≤ newSize) (memory : ℕ → Char) :
    (realloc newSize memory (some b)).Succeeds fun r =>
      (r = none → newSize = 0) ∧ ∀ b' ∈ r, b'.contents = b.contents ∧ b'.size = newSize := by
  rw [length_contents] at h
  refine .ite (fun hlt => absurd h hlt.not_ge) fun _ => ?_
  refine .ite (fun h0 => .ok ⟨fun _ => h0, fun b' hb' => by cases hb'⟩) fun _ => ?_
  generalize hb₁ : (if newSize < b.end_ then b.move else b) = b₁
  have hmoved : b₁.contents = b.contents ∧ b₁.end_ ≤ newSize := by
    rw [← hb₁]
    split
    · exact ⟨b.contents_move, by rwa [end_move]⟩
    · next hle => exact ⟨rfl, not_lt.mp hle⟩
  rw [dif_pos hmoved.2]
  refine .ok ⟨(fun hnone => by cases hnone), ?_⟩
  rintro _ ⟨⟩
  exact ⟨(contents_resize memory hmoved.2).trans hmoved.1, rfl⟩

end FifoBuffer

/-! ### Using a buffer -/

/-- A buffer in use: the pointer to it, how much may be appended after `fifo_buffer_write`, and the
queue that it should be. -/
structure FifoUse where
  buffer : Option FifoBuffer
  offered : ℕ
  queued : Text

namespace FifoUse

/-- The calls of a FIFO buffer. -/
inductive Op
  | write
  | append (data : Text)
  | read
  | consume (length : ℕ)
  | realloc (newSize : ℕ) (memory : ℕ → Char)
  | clear

def onBuffer (s : FifoUse) (f : FifoBuffer → Except FifoFault FifoUse) : Except FifoFault FifoUse :=
  s.buffer.elim (.error .null) f

def Op.run (op : Op) (s : FifoUse) : Except FifoFault FifoUse :=
  match op with
  | write => s.onBuffer fun b =>
    .ok { s with buffer := some b.write.1, offered := b.write.2.getD 0 }
  | append data => s.onBuffer fun b => do
    let b ← (b.store data).append data.length
    .ok ⟨some b, s.offered - data.length, s.queued ++ data⟩
  | read => s.onBuffer fun _ => .ok s
  | consume length => s.onBuffer fun b => do
    let b ← b.consume length
    .ok { s with buffer := some b, queued := s.queued.drop length }
  | realloc newSize memory => do
    let b ← FifoBuffer.realloc newSize memory s.buffer
    .ok { s with buffer := b, offered := 0 }
  | clear => s.onBuffer fun b => .ok ⟨some b.clear, 0, []⟩

/-- What the caller has to keep to. -/
def Op.Allowed (op : Op) (s : FifoUse) : Prop :=
  match op with
  | append data => data.length ≤ s.offered
  | consume length => length ≤ s.queued.length
  | realloc newSize _ => s.queued.length ≤ newSize
  | _ => True

/-- Every call needs a buffer, but for the one that makes it. -/
def Op.HasBuffer (op : Op) (s : FifoUse) : Prop :=
  match op with
  | realloc _ _ => True
  | _ => s.buffer ≠ none

instance (op : Op) (s : FifoUse) : Decidable (op.Allowed s ∧ op.HasBuffer s) := by
  cases op <;> dsimp only [Op.Allowed, Op.HasBuffer] <;> infer_instance

def start (size : ℕ) (memory : ℕ → Char) : FifoUse :=
  ⟨some (.new size memory), 0, []⟩

/-- **What a buffer is**: a queue of at most `size` bytes. -/
structure IsQueue (s : FifoUse) (b : FifoBuffer) : Prop where
  read : b.read = if s.queued = [] then none else some s.queued
  start_le : b.start ≤ b.end_
  end_le : b.end_ ≤ b.size
  length_le : s.queued.length ≤ b.size
  write : (b.write.2 = none ↔ s.queued.length = b.size) ∧ ∀ n ∈ b.write.2, 1 ≤ n

/-- What holds between two uses. -/
structure Inv (s : FifoUse) : Prop where
  contents : ∀ b ∈ s.buffer, b.contents = s.queued ∧ b.end_ + s.offered ≤ b.size
  freed : s.buffer = none → s.queued = []

variable {s : FifoUse}

theorem Inv.isQueue (h : s.Inv) {b : FifoBuffer} (hb : b ∈ s.buffer) : s.IsQueue b := by
  obtain ⟨hcontents, -⟩ := h.contents b hb
  have hlen := b.length_contents
  rw [hcontents] at hlen
  have hstart := b.start_le
  have hend := b.end_le
  refine ⟨hcontents ▸ b.read_eq, hstart, hend, by omega, ?_⟩
  obtain ⟨hwritten, -, ⟨hnone, hfull⟩ | ⟨n, hn, hpos, hroom⟩⟩ := b.write_spec
  · rw [hnone, ← hcontents]
    exact ⟨iff_of_true rfl hfull, fun n hn => by cases hn⟩
  · have hlen' := b.write.1.length_contents
    rw [hwritten, hcontents] at hlen'
    rw [hn]
    refine ⟨iff_of_false (Option.some_ne_none n) (by omega), ?_⟩
    rintro _ ⟨⟩
    exact hpos

/-- **Step.** -/
theorem Op.run_succeeds (h : s.Inv) {op : Op} (hallowed : op.Allowed s) (hbuffer : op.HasBuffer s) :
    (op.run s).Succeeds Inv := by
  obtain ⟨buffer, offered, queued⟩ := s
  cases buffer with
  | none =>
    cases op with
    | realloc newSize memory =>
      obtain rfl : queued = [] := h.freed rfl
      refine .ok ⟨?_, fun _ => rfl⟩
      split
      · rintro _ ⟨⟩
        exact ⟨rfl, Nat.zero_le _⟩
      · rintro _ ⟨⟩
    | _ => exact absurd rfl hbuffer
  | some b =>
    obtain ⟨rfl, hroom⟩ := h.contents b rfl
    dsimp only at hroom
    cases op with
    | write =>
      obtain ⟨hcontents, hsize, hwrite⟩ := b.write_spec
      refine .ok ⟨?_, fun hnone => by cases hnone⟩
      rintro _ ⟨⟩
      refine ⟨hcontents, ?_⟩
      obtain ⟨hnone, -⟩ | ⟨n, hn, -, hend⟩ := hwrite
      · simpa [hnone] using b.write.1.end_le
      · simpa [hn, hsize] using hend.le
    | append data =>
      have hlen : data.length ≤ offered := hallowed
      refine (FifoBuffer.append_store_succeeds (by omega)).bind fun b' hb' => .ok ⟨?_, ?_⟩
      · rintro _ ⟨⟩
        exact ⟨hb'.1, by dsimp only; omega⟩
      · exact fun hnone => by cases hnone
    | read => exact .ok h
    | consume length =>
      refine (FifoBuffer.consume_succeeds hallowed).bind fun b' hb' => .ok ⟨?_, ?_⟩
      · rintro _ ⟨⟩
        exact ⟨hb'.1, by dsimp only; omega⟩
      · exact fun hnone => by cases hnone
    | realloc newSize memory =>
      refine (FifoBuffer.realloc_succeeds hallowed memory).bind fun r hr => .ok ⟨?_, ?_⟩
      · exact fun b' hb' => ⟨(hr.2 b' hb').1, b'.end_le⟩
      · intro hnone
        have := hr.1 hnone ▸ hallowed
        exact eq_nil_of_length_eq_zero (Nat.le_zero.mp this)
    | clear =>
      refine .ok ⟨?_, fun hnone => by cases hnone⟩
      rintro _ ⟨⟩
      exact ⟨rfl, Nat.zero_le _⟩

/-- **A buffer is a bounded queue of bytes**, and no assertion fails, as long as there is a
buffer. -/
theorem isQueue_of_reaches {size : ℕ} {memory : ℕ → Char}
    (h : Reaches Op.run (fun op s => op.Allowed s ∧ op.HasBuffer s) (start size memory) s) :
    (∀ b ∈ s.buffer, s.IsQueue b) ∧
      ∀ op : Op, op.Allowed s → op.HasBuffer s → (op.run s).Succeeds fun _ => True := by
  have hinv : s.Inv := by
    refine h.invariant ⟨?_, fun hnone => by cases hnone⟩ fun op t hop ht =>
      (Op.run_succeeds ht hop.1 hop.2).yields
    rintro _ ⟨⟩
    exact ⟨rfl, Nat.zero_le _⟩
  exact ⟨fun b hb => hinv.isQueue hb, fun op hallowed hbuffer =>
    (Op.run_succeeds hinv hallowed hbuffer).mono fun _ _ => trivial⟩

theorem isQueue_of_reaches_write :
    ∃ s : FifoUse, s.queued = ['b', 'c'] ∧ ∀ b ∈ s.buffer, s.IsQueue b := by
  obtain ⟨s, hs, hqueued⟩ := exists_reaches Op.run
    (fun op s => op.Allowed s ∧ op.HasBuffer s) (start 2 fun _ => ' ')
    [.write, .append ['a', 'b'], .read, .consume 1, .realloc 4 fun _ => ' ', .write, .append ['c']]
    (P := fun s => s.queued = ['b', 'c']) (by decide)
  exact ⟨s, hqueued, (isQueue_of_reaches hs).1⟩

theorem write_null : ∃ s, Reaches Op.run Op.Allowed (start 16 fun _ => ' ') s ∧
    Op.write.Allowed s ∧ Op.write.run s = .error .null :=
  ⟨_, .step (a := .realloc 0 fun _ => ' ') .refl le_rfl rfl, trivial, rfl⟩

end FifoUse

end Mpd
