import Mathlib.Data.Nat.Bitwise
import Mpd.Client.Fifo

/-!
# The wave encoder

`encoder/wave.c` puts a header and the samples that it is given into a buffer, from which they are
read. `growing_fifo.c` makes the buffer larger when there is no room behind its contents. How large
it has to be is calculated from the length of the contents; but there is room only behind `end`, and
the contents are moved to the front only if they reach the end of the buffer. If some of them have
been read, the new size can be less than the old one, or not enough (`FifoBuffer.Grows`). Otherwise
what is read is what has been written (`carries_iff`).
-/

namespace Mpd

open List

/-! ### A buffer that grows -/

def align (size : ℕ) : ℕ :=
  ((size - 1) ||| 8191) + 1

theorem le_align (size : ℕ) : size ≤ align size := by
  have := Nat.left_le_or (n := size - 1) (m := 8191)
  rw [align]
  omega

namespace FifoBuffer

variable {b : FifoBuffer} {length : ℕ}

def growingFifoWrite (length : ℕ) (memory : ℕ → Char) (b : FifoBuffer) :
    Except FifoFault FifoBuffer :=
  if b.write.2.any (length ≤ ·) then .ok b.write.1
  else
    let b := b.write.1
    let newSize := b.end_ - b.start + length
    if newSize ≤ b.size then .error (.grow length)
    else do
      let b ← realloc (align newSize) memory (some b)
      match b with
      | none => .error .null
      | some b => if b.write.2.any (length ≤ ·) then .ok b.write.1 else .error (.room length)

def Grows (b : FifoBuffer) (length : ℕ) : Prop :=
  b.writeEnd < b.size ∧ b.writeEnd + length ≤ b.size ∨
    b.size < b.end_ - b.start + length ∧
      b.writeEnd + length ≤ align (b.end_ - b.start + length)

theorem any_write_iff (b : FifoBuffer) (length : ℕ) : b.write.2.any (length ≤ ·) = true ↔
    b.writeEnd < b.size ∧ b.writeEnd + length ≤ b.size := by
  have := b.writeEnd_le
  rw [b.write_eq.2]
  split
  · simp
    omega
  · simp
    omega

theorem writeEnd_resize (b : FifoBuffer) {newSize : ℕ} (memory : ℕ → Char)
    (h : b.write.1.end_ ≤ newSize) (hlt : b.size < newSize) :
    (b.write.1.resize newSize memory h).writeEnd = b.writeEnd := by
  have hlen := congrArg length b.write_spec.1
  have hend := b.write_eq.1
  have hle := b.writeEnd_le
  have hstart' := b.start_le
  rw [length_contents, length_contents] at hlen
  show (if b.write.1.start = b.write.1.end_ then 0 else if b.write.1.end_ = newSize then
    b.write.1.end_ - b.write.1.start else b.write.1.end_) = b.writeEnd
  rw [if_neg (show b.write.1.end_ ≠ newSize by omega)]
  split
  · rw [writeEnd, if_pos (by omega)]
  · exact hend

/-- **When there is room in a buffer that grows.** The contents are kept; otherwise an assertion
fails. -/
theorem growingFifoWrite_cases (b : FifoBuffer) (length : ℕ) (memory : ℕ → Char) :
    (b.Grows length ∧ (growingFifoWrite length memory b).Succeeds fun b' =>
      b'.contents = b.contents ∧ b'.end_ + length ≤ b'.size) ∨
    (¬ b.Grows length ∧ ∃ f, growingFifoWrite length memory b = .error f) := by
  obtain ⟨hcontents, hsize, -⟩ := b.write_spec
  have hle := b.writeEnd_le
  have hlen : b.write.1.end_ - b.write.1.start = b.end_ - b.start := by
    rw [← length_contents, ← length_contents, hcontents]
  have hroom := b.any_write_iff length
  rw [growingFifoWrite, Grows]
  by_cases hany : b.write.2.any (length ≤ ·) = true
  · rw [if_pos hany, Except.succeeds_ok, b.write_eq.1, hsize]
    rw [hroom] at hany
    exact .inl ⟨.inl hany, hcontents, hany.2⟩
  rw [if_neg hany, or_iff_right (hroom.not.mp hany)]
  dsimp only
  rw [hlen, hsize]
  by_cases hgrow : b.end_ - b.start + length ≤ b.size
  · rw [if_pos hgrow]
    exact .inr ⟨fun h => h.1.not_ge hgrow, _, rfl⟩
  rw [if_neg hgrow, and_iff_right (not_le.mp hgrow)]
  generalize b.end_ - b.start + length = newSize at hgrow
  have halign := le_align newSize
  have hend : b.write.1.end_ ≤ align newSize := by
    rw [b.write_eq.1]
    omega
  have hrealloc : realloc (align newSize) memory (some b.write.1) =
      .ok (some (b.write.1.resize (align newSize) memory hend)) := by
    rw [realloc, if_neg (by omega), if_neg (by omega)]
    simp only [if_neg hend.not_gt, dif_pos hend]
  -- the larger buffer is where it was, with more room behind its contents
  have hend' := b.writeEnd_resize memory hend (by omega)
  have hcontents' := (contents_resize memory hend).trans hcontents
  have hsize' : (b.write.1.resize (align newSize) memory hend).size = align newSize := rfl
  generalize b.write.1.resize (align newSize) memory hend = b' at *
  obtain ⟨hkept, hsize'', -⟩ := b'.write_spec
  have hroom' := b'.any_write_iff length
  rw [hend', hsize'] at hroom'
  rw [hrealloc, Except.ok_bind]
  dsimp only
  by_cases hany' : b'.write.2.any (length ≤ ·) = true
  · rw [if_pos hany', Except.succeeds_ok, hkept, b'.write_eq.1, hsize'', hend', hsize']
    have hle' := (hroom'.mp hany').2
    exact .inl ⟨hle', hcontents', hle'⟩
  · rw [if_neg hany']
    exact .inr ⟨fun h => hany' (hroom'.mpr ⟨by omega, h⟩), _, rfl⟩

end FifoBuffer

/-! ### The encoder -/

inductive SampleFormat
  | undefined | s8 | s16 | s24P32 | s32 | float | dsd

def SampleFormat.waveBits : SampleFormat → ℕ
  | s8 => 8
  | s24P32 => 24
  | s32 => 32
  | _ => 16

def littleEndian (bytes n : ℕ) : Text :=
  (range bytes).map fun i => Char.ofNat (n / 256 ^ i % 256)

def waveHeader (channels bits freq blockSize : ℕ) : Text :=
  let dataSize := 0x0FFFFFFF
  littleEndian 4 0x46464952 ++ littleEndian 4 (4 + (8 + 16) + (8 + dataSize)) ++
  littleEndian 4 0x45564157 ++ littleEndian 4 0x20746d66 ++ littleEndian 4 16 ++
  littleEndian 2 1 ++ littleEndian 2 channels ++ littleEndian 4 freq ++
  littleEndian 4 (freq * blockSize) ++ littleEndian 2 blockSize ++ littleEndian 2 bits ++
  littleEndian 4 0x61746164 ++ littleEndian 4 dataSize

def pcm24ToWave : Text → Text
  | a :: b :: c :: _ :: src => a :: b :: c :: pcm24ToWave src
  | _ => []

def waveEncode (bits : ℕ) (src : Text) : Text :=
  if bits = 24 then pcm24ToWave src else src

/-- An encoder, with what it has been given and what has been read from it. -/
structure WaveEncoder where
  bits : ℕ
  buffer : FifoBuffer
  given : Text
  output : Text

namespace WaveEncoder

inductive Call
  | write (src : Text) (memory : ℕ → Char)
  | read (length : ℕ)

def put (e : WaveEncoder) (length : ℕ) (data : Text) (memory : ℕ → Char) :
    Except FifoFault WaveEncoder := do
  let b ← e.buffer.growingFifoWrite length memory
  let b ← (b.store data).append data.length
  .ok { e with buffer := b, given := e.given ++ data }

def openEncoder (format : SampleFormat) (channels freq : ℕ) (memory : ℕ → Char) :
    Except FifoFault WaveEncoder :=
  let bits := format.waveBits
  put ⟨bits, .new 8192 memory, [], []⟩ 44 (waveHeader channels bits freq (bits / 8 * channels))
    memory

def Call.run (call : Call) (e : WaveEncoder) : Except FifoFault WaveEncoder :=
  match call with
  | write src memory => e.put src.length (waveEncode e.bits src) memory
  | read length =>
    match e.buffer.read with
    | none => .ok e
    | some src => do
      let length := min length src.length
      let b ← e.buffer.consume length
      .ok { e with buffer := b, output := e.output ++ src.take length }

/-- The buffer can grow by what is written. -/
def Call.Fits (call : Call) (e : WaveEncoder) : Prop :=
  match call with
  | write src _ => e.buffer.Grows src.length
  | read _ => True

/-- **The output and the buffer are what was given.** -/
def Carries (e : WaveEncoder) : Prop :=
  e.output ++ e.buffer.contents = e.given

variable {e : WaveEncoder}

theorem length_pcm24ToWave_le (src : Text) : (pcm24ToWave src).length ≤ src.length := by
  induction src using pcm24ToWave.induct with
  | case1 a b c d src ih =>
    simp only [pcm24ToWave, length_cons]
    omega
  | case2 src h =>
    rw [pcm24ToWave.eq_2 src h]
    exact Nat.zero_le _

theorem length_waveEncode_le (bits : ℕ) (src : Text) :
    (waveEncode bits src).length ≤ src.length := by
  rw [waveEncode]
  split
  · exact length_pcm24ToWave_le src
  · exact le_rfl

theorem Carries.put (h : e.Carries) {length : ℕ} (hgrows : e.buffer.Grows length) {data : Text}
    (hdata : data.length ≤ length) (memory : ℕ → Char) :
    (e.put length data memory).Succeeds Carries := by
  obtain ⟨-, hwrite⟩ | ⟨hnot, -⟩ := e.buffer.growingFifoWrite_cases length memory
  · refine hwrite.bind fun b hb => ?_
    refine (FifoBuffer.append_store_succeeds (by omega)).bind fun b' hb' => .ok ?_
    rw [Carries, hb'.1, hb.1, ← append_assoc, h]
  · exact absurd hgrows hnot

/-- **Step.** -/
theorem Carries.run (h : e.Carries) {call : Call} (hfits : call.Fits e) :
    (call.run e).Succeeds Carries := by
  cases call with
  | write src memory => exact h.put hfits (length_waveEncode_le e.bits src) memory
  | read length =>
    rw [Call.run, e.buffer.read_eq]
    split_ifs
    · exact .ok h
    · refine (FifoBuffer.consume_succeeds (min_le_right length _)).bind fun b hb => .ok ?_
      rw [Carries, hb.1, append_assoc, take_append_drop, h]

theorem Carries.keeps_iff_follows (h : e.Carries) (calls : List Call) :
    Keeps Call.run (fun _ => False) Carries calls e ↔ Follows Call.run Call.Fits calls e := by
  refine keeps_iff (fun _ => id) (fun call e h hfits => (h.run hfits).within) ?_ h
  rintro (⟨src, memory⟩ | length) e h hfits hwithin
  · obtain ⟨hgrows, -⟩ | ⟨-, f, hf⟩ := e.buffer.growingFifoWrite_cases src.length memory
    · exact hfits hgrows
    · rw [Call.run, WaveEncoder.put, hf] at hwithin
      exact Except.within_error.mp hwithin
  · exact hfits trivial

theorem openEncoder_succeeds (format : SampleFormat) (channels freq : ℕ) (memory : ℕ → Char) :
    (openEncoder format channels freq memory).Succeeds fun e => e.Carries := by
  have hstart : Carries ⟨format.waveBits, .new 8192 memory, [], []⟩ := rfl
  exact hstart.put (.inl ⟨Nat.zero_lt_succ _, Nat.le_of_ble_eq_true rfl⟩) (by rfl) memory

/-- **When the encoder carries its data**: after it has been opened, calls lose nothing and no
assertion fails, if and only if each write finds room. -/
theorem carries_iff (format : SampleFormat) (channels freq : ℕ) (memory : ℕ → Char) :
    (openEncoder format channels freq memory).Succeeds fun e => ∀ calls : List Call,
      Keeps Call.run (fun _ => False) Carries calls e ↔ Follows Call.run Call.Fits calls e :=
  (openEncoder_succeeds format channels freq memory).mono fun _ he calls =>
    he.keeps_iff_follows calls

theorem not_carries_fill :
    (openEncoder .s16 2 44100 fun _ => ' ').Succeeds fun e => ¬ Keeps Call.run (fun _ => False)
      Carries [.read 1, .write (List.replicate 8149 ' ') fun _ => ' '] e := by
  refine ⟨_, rfl, fun hkeeps => ?_⟩
  have hfollows := fun h => (Carries.keeps_iff_follows h _).mp hkeeps
  obtain ⟨hfits, -⟩ := (hfollows rfl).2 _ rfl
  rw [Call.Fits, length_replicate, FifoBuffer.Grows] at hfits
  revert hfits
  decide

end WaveEncoder

end Mpd
