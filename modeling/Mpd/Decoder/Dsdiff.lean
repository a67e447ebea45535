import Mathlib.Algebra.Order.Group.Int
import Mathlib.Data.List.Chain
import Mpd.Decoder.Dsd

/-!
# Skipping chunks of a DSDIFF stream

`dsdlib_skip_to` returns whether a seek succeeds. On a stream that is not seekable it reads, and
returns an error code, or 0 for success, as a boolean: the wrong way round. `dsdiff_read_metadata`
and the functions for its properties skip the rest of a chunk with it. The end of a chunk is
calculated with 64 bits, so it can also be anywhere in front of the chunk.

What a skip returns is right only on seekable streams (`dsdlibSkipTo_iff`). There a reader goes on
from the end of the chunk, if this has no overflow; on other streams it goes on exactly if it should
not (`Skip.right_iff`).
-/

namespace Mpd

namespace Dsd

/-- How a stream seeks. A seek that succeeds leads to the offset. -/
structure Plugin where
  seek : ByteStream → ℤ → Bool × ByteStream
  lands : ∀ is offset, (seek is offset).1 = true → (seek is offset).2.offset = offset

def skipLoop (offset : ℤ) : ℕ → ByteStream → Bool × ByteStream
  | 0, is => (false, is)
  | rounds + 1, is =>
    if is.offset < offset then
      let (data, is) := decoderRead is (min 8192 (offset - is.offset)).toNat
      if data = [] then (true, is) else skipLoop offset rounds is
    else (false, is)

def dsdlibSkipTo (plugin : Plugin) (is : ByteStream) (offset : ℤ) : Bool × ByteStream :=
  if is.seekable then plugin.seek is offset
  else if offset < is.offset then (true, is)
  else skipLoop offset (offset - is.offset).toNat is

/-- **What the loop does**: it comes to the offset, unless a read fails before. -/
theorem skipLoop_spec (offset : ℤ) (rounds : ℕ) (is : ByteStream) (hle : is.offset ≤ offset)
    (hrounds : offset ≤ is.offset + rounds) :
    (skipLoop offset rounds is).1 = false ∧ (skipLoop offset rounds is).2.offset = offset ∨
      (skipLoop offset rounds is).1 = true ∧ (skipLoop offset rounds is).2.offset < offset := by
  induction rounds generalizing is with
  | zero =>
    have hstop : (is.offset : ℤ) = offset := by omega
    exact .inl ⟨rfl, hstop⟩
  | succ rounds ih =>
    by_cases hlt : (is.offset : ℤ) < offset
    · generalize hlength : (min 8192 (offset - is.offset)).toNat = length
      have hlen := @length_decoderRead is length (by omega)
      have hoffset := offset_decoderRead is length
      simp only [skipLoop, if_pos hlt, hlength]
      by_cases hnil : (decoderRead is length).1 = []
      · rw [hnil, List.length_nil] at hoffset
        rw [if_pos hnil, hoffset]
        exact .inr ⟨rfl, hlt⟩
      · have hpos := List.length_pos_iff.mpr hnil
        rw [if_neg hnil]
        exact ih _ (by omega) (by omega)
    · have hstop : (is.offset : ℤ) = offset := by omega
      rw [skipLoop, if_neg hlt]
      exact .inl ⟨rfl, hstop⟩

/-- **What `dsdlib_skip_to` returns on a stream that is not seekable.** -/
theorem dsdlibSkipTo_spec (plugin : Plugin) (offset : ℤ) {is : ByteStream}
    (h : is.seekable = false) :
    (dsdlibSkipTo plugin is offset).1 = false ∧
      (dsdlibSkipTo plugin is offset).2.offset = offset ∨
    (dsdlibSkipTo plugin is offset).1 = true ∧
      ((dsdlibSkipTo plugin is offset).2 = is ∧ offset < is.offset ∨
        is.offset ≤ offset ∧ (dsdlibSkipTo plugin is offset).2.offset < offset) := by
  rw [dsdlibSkipTo, h, if_neg Bool.false_ne_true]
  by_cases hlt : offset < is.offset
  · rw [if_pos hlt]
    exact .inr ⟨rfl, .inl ⟨rfl, hlt⟩⟩
  · rw [if_neg hlt]
    obtain hlands | ⟨htrue, hbefore⟩ :=
      skipLoop_spec offset (offset - is.offset).toNat is (by omega) (by omega)
    · exact .inl hlands
    · exact .inr ⟨htrue, .inr ⟨by omega, hbefore⟩⟩

/-- **When the result of a skip is right**: never without seeking. -/
theorem dsdlibSkipTo_iff (plugin : Plugin) (is : ByteStream) (offset : ℤ) :
    ((dsdlibSkipTo plugin is offset).1 = true ↔
      (dsdlibSkipTo plugin is offset).2.offset = offset) ↔
    is.seekable = true ∧ ((plugin.seek is offset).1 = true ∨
      (plugin.seek is offset).2.offset ≠ offset) := by
  cases h : is.seekable with
  | true =>
    have := plugin.lands is offset
    simp only [dsdlibSkipTo, h, if_true]
    tauto
  | false =>
    refine iff_of_false (fun hiff => ?_) (by simp)
    obtain ⟨hfalse, hlands⟩ | ⟨htrue, hbad⟩ := dsdlibSkipTo_spec plugin offset h
    · simp [hfalse, hlands] at hiff
    · have hlands := hiff.mp htrue
      obtain ⟨heq, hlt⟩ | ⟨-, hlt⟩ := hbad
      · rw [heq] at hlands
        omega
      · omega

/-! ### The chunks at the beginning -/

def goffset (stop : ℕ) : ℤ :=
  Int.bmod stop 18446744073709551616

/-- A skip of the rest of a chunk: the stream before, and the end of the chunk. -/
structure Skip where
  is : ByteStream
  stop : ℕ

def Skip.offset (k : Skip) : ℤ :=
  goffset k.stop

/-- What is recorded: skips, and the offsets at which chunk headers are read. -/
inductive Mark
  | skip (k : Skip)
  | header (offset : ℕ)

/-- The metadata that are read, and the record. -/
structure Reader where
  is : ByteStream
  sampleRate : ℕ
  channels : ℕ
  chunkSize : ℕ
  record : List Mark

def fromBe (bytes : List UInt8) : ℕ :=
  bytes.foldl (fun n b => 256 * n + b.toNat) 0

def idEquals (id : List UInt8) (s : String) : Bool :=
  id.map (fun b => Char.ofNat b.toNat) = s.toList

/-- `dsdlib_read`. A function that returns false fails with the reader. -/
def dsdlibRead (length : ℕ) (r : Reader) : Except Reader (List UInt8 × Reader) :=
  let (data, is) := decoderRead r.is length
  if data.length = length then .ok (data, { r with is }) else .error { r with is }

def readChunkHeader (r : Reader) : Except Reader (List UInt8 × Reader) :=
  dsdlibRead 12 { r with record := r.record ++ [.header r.is.offset] }

def skipTo (plugin : Plugin) (stop : ℕ) (r : Reader) : Except Reader Reader :=
  let k : Skip := ⟨r.is, stop⟩
  let (done, is) := dsdlibSkipTo plugin r.is k.offset
  let r := { r with is, record := r.record ++ [.skip k] }
  if done then .ok r else .error r

def readPropSnd (plugin : Plugin) (endOffset : ℤ) : ℕ → Reader → Except Reader Reader
  | 0, r => .error r
  | rounds + 1, r =>
    if endOffset < r.is.offset + 12 then if r.is.offset = endOffset then .ok r else .error r
    else do
      let (header, r) ← readChunkHeader r
      let size := fromBe (header.drop 4)
      let stop := r.is.offset + size
      if endOffset < goffset stop then .error r
      else if idEquals (header.take 4) "FS  " then
        if size ≠ 4 then .error r
        else do
          let (rate, r) ← dsdlibRead 4 r
          readPropSnd plugin endOffset rounds { r with sampleRate := fromBe rate }
      else if idEquals (header.take 4) "CHNL" then
        if size < 2 then .error r
        else do
          let (channels, r) ← dsdlibRead 2 r
          let r ← skipTo plugin stop r
          readPropSnd plugin endOffset rounds { r with channels := fromBe channels }
      else if idEquals (header.take 4) "CMPR" then
        if size < 4 then .error r
        else do
          let (type, r) ← dsdlibRead 4 r
          let r ← skipTo plugin stop r
          if idEquals type "DSD " then readPropSnd plugin endOffset rounds r else .error r
      else skipTo plugin stop r >>= readPropSnd plugin endOffset rounds

def readProp (plugin : Plugin) (rounds size : ℕ) (r : Reader) : Except Reader Reader :=
  let stop := r.is.offset + size
  if size < 4 then .error r
  else do
    let (id, r) ← dsdlibRead 4 r
    if idEquals id "SND " then readPropSnd plugin (goffset stop) rounds r
    else skipTo plugin stop r

def readChunks (plugin : Plugin) : ℕ → Reader → Except Reader Reader
  | 0, r => .error r
  | rounds + 1, r => do
    let (header, r) ← readChunkHeader r
    let size := fromBe (header.drop 4)
    if idEquals (header.take 4) "PROP" then
      readProp plugin rounds size r >>= readChunks plugin rounds
    else if idEquals (header.take 4) "DSD " then .ok { r with chunkSize := size }
    else skipTo plugin (r.is.offset + size) r >>= readChunks plugin rounds

def readMetadata (plugin : Plugin) (rounds : ℕ) (r : Reader) : Except Reader Reader := do
  let (header, r) ← dsdlibRead 16 r
  if idEquals (header.take 4) "FRM8" && idEquals (header.drop 12) "DSD " then
    readChunks plugin rounds r
  else .error r

def recordOf (plugin : Plugin) (rounds : ℕ) (is : ByteStream) : List Mark :=
  match readMetadata plugin rounds ⟨is, 0, 0, 0, []⟩ with
  | .ok r | .error r => r.record

/-! ### What is read behind a skip -/

section Follows

variable (plugin : Plugin)

/-- A header is read behind a skip only if this returned true. -/
def Mark.Follows : Mark → Mark → Prop
  | .skip k, .header offset => (dsdlibSkipTo plugin k.is k.offset).1 = true ∧
    (dsdlibSkipTo plugin k.is k.offset).2.offset = offset
  | _, _ => True

def Reader.Sound (r : Reader) : Prop :=
  r.record.IsChain (Mark.Follows plugin)

/-- The next header may be read. -/
def Reader.Ready (r : Reader) : Prop :=
  (r.record ++ [Mark.header r.is.offset]).IsChain (Mark.Follows plugin)

/-- A header has been read last. -/
def Reader.InChunk (r : Reader) : Prop :=
  ∀ m, (r.record ++ [m]).IsChain (Mark.Follows plugin)

end Follows

section

variable {plugin : Plugin} {r : Reader} {rounds : ℕ}

theorem Reader.Ready.sound (h : r.Ready plugin) : r.Sound plugin :=
  h.left_of_append

theorem Reader.InChunk.sound (h : r.InChunk plugin) : r.Sound plugin :=
  (h (.header 0)).left_of_append

theorem isChain_snoc {marks : List Mark} {a b : Mark}
    (h : (marks ++ [a]).IsChain (Mark.Follows plugin)) (hab : a.Follows plugin b) :
    (marks ++ [a] ++ [b]).IsChain (Mark.Follows plugin) := by
  rw [List.append_assoc]
  exact List.isChain_append_cons_cons.mpr ⟨h, hab, .singleton b⟩

theorem dsdlibRead_within (h : r.InChunk plugin) (length : ℕ) :
    (dsdlibRead length r).Within (·.Sound plugin) (·.2.InChunk plugin) :=
  .branch (.ok h) <| .error h.sound

theorem readChunkHeader_within (h : r.Ready plugin) :
    (readChunkHeader r).Within (·.Sound plugin) (·.2.InChunk plugin) :=
  dsdlibRead_within (fun _ => isChain_snoc h trivial) 12

theorem skipTo_within (h : r.InChunk plugin) (stop : ℕ) :
    (skipTo plugin stop r).Within (·.Sound plugin) (·.Ready plugin) :=
  .ite (fun hdone => .ok (isChain_snoc (h _) ⟨hdone, rfl⟩)) fun _ => .error (h _)

theorem readPropSnd_within (h : r.Ready plugin) (endOffset : ℤ) :
    (readPropSnd plugin endOffset rounds r).Within (·.Sound plugin) (·.Ready plugin) := by
  induction rounds generalizing r with
  | zero => exact .error h.sound
  | succ rounds ih =>
    rw [readPropSnd]
    refine .branch (.branch (.ok h) <| .error h.sound) <| (readChunkHeader_within h).bind ?_
    rintro ⟨header, r⟩ hr
    refine .branch (.error hr.sound) <| .branch ?_ <| .branch ?_ <| .branch ?_ ?_
    · exact .branch (.error hr.sound) <| (dsdlibRead_within hr 4).bind fun x hx => ih (hx _)
    · exact .branch (.error hr.sound) <| (dsdlibRead_within hr 2).bind fun x hx =>
        (skipTo_within hx _).bind fun r' hr' => ih hr'
    · exact .branch (.error hr.sound) <| (dsdlibRead_within hr 4).bind fun x hx =>
        (skipTo_within hx _).bind fun r' hr' => .branch (ih hr') <| .error hr'.sound
    · exact (skipTo_within hr _).bind fun r' hr' => ih hr'

theorem readProp_within (h : r.InChunk plugin) (size : ℕ) :
    (readProp plugin rounds size r).Within (·.Sound plugin) (·.Ready plugin) :=
  .branch (.error h.sound) <| (dsdlibRead_within h 4).bind fun _ hx =>
      .branch (readPropSnd_within (hx _) _) <| skipTo_within hx _

theorem readChunks_within (h : r.Ready plugin) :
    (readChunks plugin rounds r).Within (·.Sound plugin) (·.Sound plugin) := by
  induction rounds generalizing r with
  | zero => exact .error h.sound
  | succ rounds ih =>
    rw [readChunks]
    refine (readChunkHeader_within h).bind fun x hx => ?_
    refine .branch ?_ <| .branch (.ok hx.sound) ?_
    · exact (readProp_within hx _).bind fun r' hr' => ih hr'
    · exact (skipTo_within hx _).bind fun r' hr' => ih hr'

theorem recordOf_isChain (plugin : Plugin) (rounds : ℕ) (is : ByteStream) :
    (recordOf plugin rounds is).IsChain (Mark.Follows plugin) := by
  have h : (readMetadata plugin rounds ⟨is, 0, 0, 0, []⟩).Within (·.Sound plugin)
      (·.Sound plugin) := by
    refine (dsdlibRead_within (fun _ => .singleton _) 16).bind fun x hx => ?_
    exact .branch (readChunks_within (hx _)) <| .error hx.sound
  rw [recordOf]
  cases hr : readMetadata plugin rounds ⟨is, 0, 0, 0, []⟩ with
  | ok r => exact h.2 r hr
  | error r => exact h.1 r hr

end

/-- The end of the chunk is reached by a seek. -/
def Skip.Right (k : Skip) : Prop :=
  if k.is.seekable then k.stop < 9223372036854775808
  else k.is.offset = k.stop ∧ 9223372036854775808 ≤ k.stop

theorem Skip.offset_eq (k : Skip) : k.offset ≤ k.stop ∧
    (k.offset = k.stop ↔ k.stop < 9223372036854775808) := by
  have hdef : k.offset = _ := Int.bmod_def k.stop 18446744073709551616
  omega

/-- **When a reader goes on from the end of a chunk.** -/
theorem Skip.right_iff (plugin : Plugin) (k : Skip)
    (h : (dsdlibSkipTo plugin k.is k.offset).1 = true) :
    (dsdlibSkipTo plugin k.is k.offset).2.offset = k.stop ↔ k.Right := by
  obtain ⟨hle, heq⟩ := k.offset_eq
  rw [Right]
  cases hseekable : k.is.seekable with
  | true =>
    rw [dsdlibSkipTo, hseekable, if_pos rfl] at h ⊢
    have hlands := plugin.lands k.is k.offset h
    rw [if_pos rfl]
    omega
  | false =>
    rw [if_neg Bool.false_ne_true]
    obtain ⟨hfalse, -⟩ | ⟨-, ⟨hsame, hlt⟩ | ⟨hge, hlt⟩⟩ :=
      dsdlibSkipTo_spec plugin k.offset hseekable
    · rw [hfalse] at h
      cases h
    · rw [hsame]
      omega
    · omega

/-- **When skips are right**: their results, only on seekable streams; and the headers that are read
behind them are at the end of the chunk, if the stream is seekable and this is below `2 ^ 63`. -/
theorem skips_iff (plugin : Plugin) (is : ByteStream) (offset : ℤ) (rounds : ℕ) :
    (((dsdlibSkipTo plugin is offset).1 = true ↔
        (dsdlibSkipTo plugin is offset).2.offset = offset) ↔
      is.seekable = true ∧ ((plugin.seek is offset).1 = true ∨
        (plugin.seek is offset).2.offset ≠ offset)) ∧
    ((∀ k offset, [.skip k, .header offset] <:+: recordOf plugin rounds is → offset = k.stop) ↔
      ∀ k offset, [.skip k, .header offset] <:+: recordOf plugin rounds is → k.Right) := by
  refine ⟨dsdlibSkipTo_iff plugin is offset, forall₃_congr fun k offset hpair => ?_⟩
  have hchain := List.IsChain.infix (recordOf_isChain plugin rounds is) hpair
  obtain ⟨hdone, rfl⟩ := List.isChain_pair.mp hchain
  exact k.right_iff plugin hdone

def noSeek : Plugin where
  seek is _ := (false, is)
  lands is offset h := by cases h

theorem not_dsdlibSkipTo_byte : ¬ ((dsdlibSkipTo noSeek ⟨[1], 0, false, fun _ => 1⟩ 1).1 = true ↔
      (dsdlibSkipTo noSeek ⟨[1], 0, false, fun _ => 1⟩ 1).2.offset = 1) := by
  decide

end Dsd

end Mpd
