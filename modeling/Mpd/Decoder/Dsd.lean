import Mathlib.Order.Nat
import Mpd.General.Outcome
import Mpd.Input.Stream

/-!
# DSD streams

`decoder/dsdiff.c` and `decoder/dsf.c` read the audio data of a chunk in blocks of whole frames
(`decodeChunk`). A block is as large as the buffer, or as what is left of the chunk, rounded down to
whole frames. If the size of the chunk is not a multiple of the size of a frame, nothing is left to
be read in the end, but the loop goes on; and a read that returns less than a block ends it
(`decodesAll_iff`).
-/

namespace Mpd

open List Nat

abbrev ByteStream := InputStream UInt8

def decoderRead (is : ByteStream) (length : ℕ) : List UInt8 × ByteStream :=
  if length = 0 then ([], is)
  -- the read is cancelled, or fails
  else if is.offers 0 = 0 then ([], { is with offers := fun k => is.offers (k + 1) })
  else is.read length

section DecoderRead

variable (is : ByteStream) {length : ℕ}

theorem length_decoderRead (h : length ≠ 0) :
    (decoderRead is length).1.length = min (min length (is.offers 0)) is.rest.length := by
  rw [decoderRead, if_neg h]
  split_ifs with h0
  · rw [h0, Nat.min_zero, Nat.zero_min, length_nil]
  · rw [is.length_read, max_eq_right (Nat.pos_of_ne_zero h0)]

theorem append_rest_decoderRead (length : ℕ) :
    (decoderRead is length).1 ++ (decoderRead is length).2.rest = is.rest := by
  rw [decoderRead]
  split_ifs
  · rfl
  · rfl
  · exact is.append_rest_read length

theorem offset_decoderRead (length : ℕ) :
    (decoderRead is length).2.offset = is.offset + (decoderRead is length).1.length := by
  rw [decoderRead]
  split_ifs <;> rfl

theorem offers_decoderRead (h : length ≠ 0) (k : ℕ) :
    (decoderRead is length).2.offers k = is.offers (k + 1) := by
  rw [decoderRead, if_neg h]
  split_ifs <;> rfl

end DecoderRead

inductive DecoderCommand
  | none | start | stop | seek
  deriving DecidableEq

namespace Dsd

/-! ### The loop over a chunk -/

/-- The loop: how much of the chunk is left, the stream, the local buffer, and what has been passed
to `decoder_data`. -/
structure Decoding where
  chunkSize : ℕ
  is : ByteStream
  buffer : List UInt8
  passed : List (List UInt8)

def bufferSize (channels : ℕ) : ℕ :=
  8192 / channels * channels

def nowSize (channels chunkSize : ℕ) : ℕ :=
  if chunkSize < bufferSize channels then chunkSize / channels * channels else bufferSize channels

inductive Endless
  | endless
  deriving DecidableEq

def Decoding.round (channels : ℕ) (convert : ℕ → List UInt8 → List UInt8) (d : Decoding) :
    Option Decoding :=
  let (data, is) := decoderRead d.is (nowSize channels d.chunkSize)
  if data.length = nowSize channels d.chunkSize then
    let buffer := convert data.length (data ++ d.buffer.drop data.length)
    some ⟨d.chunkSize - data.length, is, buffer, d.passed ++ [buffer.take data.length]⟩
  else none

def decodeChunk (channels : ℕ) (convert : ℕ → List UInt8 → List UInt8)
    (command : List (List UInt8) → DecoderCommand) :
    ℕ → Decoding → Except Endless (Bool × Decoding)
  | 0, _ => .error .endless
  | rounds + 1, d =>
    if d.chunkSize = 0 then .ok (true, d)
    else
      match d.round channels convert with
      | none => .ok (false, d)
      | some d =>
        match command d.passed with
        | .start | .stop => .ok (false, d)
        | .none | .seek => decodeChunk channels convert command rounds d

def fourTimes (table : UInt8 → List UInt8) (step n : UInt8) : List UInt8 :=
  [0, 2, 1, 3].flatMap fun k => table (n + k * step)

def bitReverse (x : UInt8) : UInt8 :=
  (fourTimes (fourTimes (fourTimes (fourTimes ([·]) 64) 16) 4) 1 0).getD x.toNat 0

def bitReverseBuffer (n : ℕ) (buffer : List UInt8) : List UInt8 :=
  (buffer.take n).map bitReverse ++ buffer.drop n

def dsfToPcmOrder (n : ℕ) (buffer : List UInt8) : List UInt8 :=
  (range n).map (fun i => buffer.getD (if i % 2 = 0 then i / 2 else 4096 + i / 2) 0) ++
    buffer.drop n

def dsdiffDecodeChunk (lsbitfirst : Bool) (channels : ℕ) :=
  decodeChunk channels fun n buffer => if lsbitfirst then bitReverseBuffer n buffer else buffer

def dsfDecodeChunk (bitreverse : Bool) (channels : ℕ) :=
  decodeChunk channels fun n buffer =>
    dsfToPcmOrder n (if bitreverse then bitReverseBuffer n buffer else buffer)

/-! ### When the whole chunk is decoded -/

def Decoding.size (d : Decoding) : ℕ :=
  d.passed.flatten.length

/-- **All whole frames of the chunk are decoded.** -/
def DecodesAll (channels : ℕ) (decode : (List (List UInt8) → DecoderCommand) → ℕ → Decoding →
    Except Endless (Bool × Decoding)) (d : Decoding) : Prop :=
  Except.Eventually (fun rounds => decode (fun _ => .none) rounds d) fun r =>
    r.1 = true ∧ r.2.size = d.size + d.chunkSize / channels * channels

/-- Each read gives what is asked for. -/
def FullReads (channels chunkSize : ℕ) (is : ByteStream) : Prop :=
  ∀ k, k * bufferSize channels < chunkSize →
    min (bufferSize channels) (chunkSize - k * bufferSize channels) ≤ is.offers k

section Decode

variable {channels rounds : ℕ} {convert : ℕ → List UInt8 → List UInt8} {d : Decoding}

theorem dvd_nowSize (channels chunkSize : ℕ) : channels ∣ nowSize channels chunkSize := by
  rw [nowSize]
  split
  · exact Nat.dvd_mul_left _ _
  · exact Nat.dvd_mul_left _ _

theorem nowSize_le (channels chunkSize : ℕ) : nowSize channels chunkSize ≤ chunkSize := by
  rw [nowSize]
  split
  · exact div_mul_le_self _ _
  · next h => exact not_lt.mp h

theorem nowSize_eq_min (h : channels ∣ d.chunkSize) :
    nowSize channels d.chunkSize = min (bufferSize channels) d.chunkSize := by
  rw [nowSize, Nat.div_mul_cancel h]
  split <;> omega

theorem fullReads_zero (is : ByteStream) : FullReads channels 0 is :=
  fun _ hk => absurd hk (Nat.not_lt_zero _)

theorem fullReads_iff {chunkSize : ℕ} {is is' : ByteStream} (h : 0 < chunkSize)
    (hnext : ∀ k, is'.offers k = is.offers (k + 1)) : FullReads channels chunkSize is ↔
      min (bufferSize channels) chunkSize ≤ is.offers 0 ∧
        FullReads channels (chunkSize - min (bufferSize channels) chunkSize) is' := by
  rw [FullReads, ← and_forall_add_one]
  refine and_congr (by simp [h]) (forall_congr' fun k => ?_)
  have hmul : (k + 1) * bufferSize channels = bufferSize channels + k * bufferSize channels := by
    rw [Nat.succ_mul, Nat.add_comm]
  rw [hnext, hmul]
  by_cases hle : bufferSize channels ≤ chunkSize
  · rw [min_eq_left hle, Nat.sub_sub, Nat.lt_sub_iff_add_lt']
  · exact iff_of_true (fun hk => absurd hk (by omega)) fun hk => absurd hk (by omega)

theorem chunkSize_of_round {d' : Decoding} (h : d' ∈ d.round channels convert) :
    d'.chunkSize = d.chunkSize - nowSize channels d.chunkSize := by
  simp only [Decoding.round] at h
  split at h
  · next hlen =>
    obtain rfl := Option.some.inj h
    exact congrArg _ hlen
  · cases h

theorem reads_of_round {d' : Decoding} (h : d' ∈ d.round channels convert)
    (hnow : nowSize channels d.chunkSize ≠ 0) :
    nowSize channels d.chunkSize ≤ d.is.offers 0 ∧
      ∀ k, d'.is.offers k = d.is.offers (k + 1) := by
  simp only [Decoding.round] at h
  split at h
  · next hlen =>
    obtain rfl := Option.some.inj h
    rw [length_decoderRead d.is hnow] at hlen
    exact ⟨by omega, offers_decoderRead d.is hnow⟩
  · cases h

theorem exists_round (hconvert : ∀ n b, n ≤ b.length → n ≤ (convert n b).length)
    (hnow : nowSize channels d.chunkSize ≠ 0)
    (hfull : nowSize channels d.chunkSize ≤ d.is.offers 0)
    (hlong : nowSize channels d.chunkSize ≤ d.is.rest.length) :
    ∃ d', d.round channels convert = some d' ∧
      d'.is.rest.length + nowSize channels d.chunkSize = d.is.rest.length ∧
      d'.size = d.size + nowSize channels d.chunkSize := by
  have hlen := length_decoderRead d.is hnow
  rw [min_eq_left hfull, min_eq_left hlong] at hlen
  have hrest := congrArg length (append_rest_decoderRead d.is (nowSize channels d.chunkSize))
  rw [length_append, hlen, Nat.add_comm] at hrest
  simp only [Decoding.round, hlen, if_true]
  refine ⟨_, rfl, hrest, ?_⟩
  have := hconvert (nowSize channels d.chunkSize)
    ((decoderRead d.is (nowSize channels d.chunkSize)).1 ++
      d.buffer.drop (nowSize channels d.chunkSize)) (by simp [hlen])
  simp only [Decoding.size, flatten_append, flatten_singleton, length_append, length_take]
  omega

/-- **When a chunk is decoded**: the loop ends with all of the chunk passed on, if the chunk has
whole frames and each read gets its block. -/
theorem decodeChunk_of_fullReads (hpos : 0 < bufferSize channels)
    (hconvert : ∀ n b, n ≤ b.length → n ≤ (convert n b).length) (hdvd : channels ∣ d.chunkSize)
    (hfull : FullReads channels d.chunkSize d.is) (hlong : d.chunkSize ≤ d.is.rest.length)
    (hrounds : d.chunkSize < rounds) :
    (decodeChunk channels convert (fun _ => .none) rounds d).Succeeds fun r =>
      r.1 = true ∧ r.2.size = d.size + d.chunkSize := by
  induction rounds generalizing d with
  | zero => cases hrounds
  | succ rounds ih =>
    rw [decodeChunk]
    by_cases h0 : d.chunkSize = 0
    · rw [if_pos h0, h0]
      exact .ok ⟨rfl, rfl⟩
    have hmin := nowSize_eq_min hdvd
    have hfirst : min (bufferSize channels) d.chunkSize ≤ d.is.offers 0 := by
      simpa using hfull 0 (by omega)
    rw [← hmin] at hfirst
    obtain ⟨d', hd', hrest, hsize⟩ := exists_round hconvert (by omega) hfirst (by omega)
    have hchunk := chunkSize_of_round hd'
    have hnext := ((fullReads_iff (Nat.pos_of_ne_zero h0)
      (reads_of_round hd' (by omega)).2).mp hfull).2
    rw [if_neg h0, hd']
    refine (ih ?_ ?_ (by omega) (by omega)).mono fun r hr => ⟨hr.1, by omega⟩
    · rw [hchunk]
      exact dvd_sub hdvd (dvd_nowSize _ _)
    · rwa [hchunk, hmin]

theorem of_decodeChunk {r : Decoding}
    (h : decodeChunk channels convert (fun _ => .none) rounds d = .ok (true, r)) :
    channels ∣ d.chunkSize ∧ FullReads channels d.chunkSize d.is := by
  induction rounds generalizing d with
  | zero => cases h
  | succ rounds ih =>
    rw [decodeChunk] at h
    by_cases h0 : d.chunkSize = 0
    · rw [h0]
      exact ⟨Nat.dvd_zero _, fullReads_zero _⟩
    rw [if_neg h0] at h
    cases hd' : d.round channels convert with
    | none =>
      rw [hd'] at h
      cases h
    | some d' =>
      rw [hd'] at h
      obtain ⟨hdvd', hfull'⟩ := ih h
      rw [chunkSize_of_round hd'] at hdvd' hfull'
      have hdvd : channels ∣ d.chunkSize :=
        (dvd_sub_iff_left (nowSize_le _ _) (dvd_nowSize _ _)).mp hdvd'
      refine ⟨hdvd, ?_⟩
      have hmin := nowSize_eq_min hdvd
      by_cases hpos : bufferSize channels = 0
      · simp [FullReads, hpos]
      · obtain ⟨hfirst, hnext⟩ := reads_of_round hd' (by omega)
        rw [hmin] at hfirst hfull'
        exact (fullReads_iff (Nat.pos_of_ne_zero h0) hnext).mpr ⟨hfirst, hfull'⟩

theorem decodesAll_decodeChunk_iff (hpos : 0 < bufferSize channels)
    (hconvert : ∀ n b, n ≤ b.length → n ≤ (convert n b).length)
    (hlong : d.chunkSize ≤ d.is.rest.length) :
    DecodesAll channels (decodeChunk channels convert) d ↔
      channels ∣ d.chunkSize ∧ FullReads channels d.chunkSize d.is := by
  constructor
  · rintro ⟨N, hN⟩
    obtain ⟨r, hr, htrue, -⟩ := hN N le_rfl
    exact of_decodeChunk (hr.trans (by rw [← htrue]))
  · rintro ⟨hdvd, hfull⟩
    refine ⟨d.chunkSize + 1, fun rounds hrounds => ?_⟩
    rw [Nat.div_mul_cancel hdvd]
    exact decodeChunk_of_fullReads hpos hconvert hdvd hfull hlong hrounds

/-- **When the whole frames of a chunk are decoded**: if the chunk has nothing else, and each read
gets its block. -/
theorem decodesAll_iff (lsbitfirst bitreverse : Bool) (h1 : 1 ≤ channels) (h8 : channels ≤ 8)
    (hlong : d.chunkSize ≤ d.is.rest.length) :
    (DecodesAll channels (dsdiffDecodeChunk lsbitfirst channels) d ↔
      channels ∣ d.chunkSize ∧ FullReads channels d.chunkSize d.is) ∧
    (DecodesAll channels (dsfDecodeChunk bitreverse channels) d ↔
      channels ∣ d.chunkSize ∧ FullReads channels d.chunkSize d.is) := by
  have hpos : 0 < bufferSize channels := by
    exact Nat.mul_pos (Nat.div_pos (by omega) h1) h1
  constructor
  · refine decodesAll_decodeChunk_iff hpos (fun n b hn => ?_) hlong
    split
    · simp only [bitReverseBuffer, length_append, length_map, length_take]
      omega
    · exact hn
  · refine decodesAll_decodeChunk_iff hpos (fun n b hn => ?_) hlong
    simp [dsfToPcmOrder]

end Decode

def streamOf (content : List UInt8) : ByteStream :=
  ⟨content, 0, true, fun _ => content.length⟩

theorem decodesAll_two_frames :
    DecodesAll 2 (dsfDecodeChunk true 2) ⟨4, streamOf [1, 2, 3, 4], [], []⟩ :=
  (decodesAll_iff false true (Nat.le_of_ble_eq_true rfl) (Nat.le_of_ble_eq_true rfl) le_rfl).2.mpr
    ⟨⟨2, rfl⟩, fun _ _ => (min_le_right _ _).trans (Nat.sub_le _ _)⟩

theorem not_decodesAll_byte : ¬ ∃ rounds r, dsdiffDecodeChunk false 2 (fun _ => .none) rounds
    ⟨1, streamOf [1], [], []⟩ = .ok r := by
  have hendless : ∀ rounds buffer passed, dsdiffDecodeChunk false 2 (fun _ => .none) rounds
      ⟨1, streamOf [1], buffer, passed⟩ = .error .endless := by
    intro rounds
    induction rounds with
    | zero => exact fun _ _ => rfl
    | succ rounds ih =>
      intro buffer passed
      simpa [dsdiffDecodeChunk, decodeChunk, Decoding.round, nowSize, bufferSize, decoderRead]
        using ih buffer (passed ++ [[]])
  rintro ⟨rounds, r, hr⟩
  cases (hendless rounds [] []).symm.trans hr

end Dsd

end Mpd
