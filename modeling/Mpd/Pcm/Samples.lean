import Mathlib.Data.Int.Notation
import Mpd.General.Outcome

/-!
# Samples

Arithmetic on PCM samples: `pcm_dither.c` reduces samples to 16 bits and feeds the error it makes
back into the next samples, `pcm_volume.c` scales samples by a volume. Both work on signed machine
integers, whose overflow is a fault here.

The errors that are fed back stay bounded over every sequence of samples and of random numbers
(`dither_bounds`). Scaling never makes a sample louder, nor changes its sign (`volume_bounds`).
-/

namespace Mpd

namespace Pcm

open Int List

/-! ### Machine integers -/

inductive Overflow
  | overflow
  deriving DecidableEq, Repr

/-- The values of a signed type, whose range is given by the absolute value of its minimum. -/
def Fits (half x : ℤ) : Prop :=
  -half ≤ x ∧ x < half
  deriving Decidable

/-- The result of a computation in a signed type. -/
def checked (half x : ℤ) : Except Overflow ℤ :=
  if Fits half x then .ok x else .error .overflow

def int16 : ℤ → Except Overflow ℤ := checked 32768

def int32 : ℤ → Except Overflow ℤ := checked 2147483648

def int64 : ℤ → Except Overflow ℤ := checked 9223372036854775808

theorem checked_bind {α : Type} {half x : ℤ} {k : ℤ → Except Overflow α} {P : α → Prop}
    (h : Fits half x) (hk : (k x).Succeeds P) : (checked half x >>= k).Succeeds P := by
  rwa [checked, if_pos h]

/-- A loop over the samples of a buffer, each with the random number that is drawn for it. -/
def overSamples {σ : Type} (f : ℤ → ℤ → σ → Except Overflow (ℤ × σ)) :
    List (ℤ × ℤ) → σ → Except Overflow (List ℤ × σ)
  | [], s => .ok ([], s)
  | (rnd, sample) :: src, s => do
    let (output, s) ← f rnd sample s
    let (dest, s) ← overSamples f src s
    .ok (output :: dest, s)

theorem overSamples_succeeds {σ : Type} {f : ℤ → ℤ → σ → Except Overflow (ℤ × σ)} {I : σ → Prop}
    {src : List (ℤ × ℤ)} {R : ℤ × ℤ → ℤ → Prop} {s : σ}
    (hf : ∀ x ∈ src, ∀ s, I s → (f x.1 x.2 s).Succeeds fun r => I r.2 ∧ R x r.1) (hs : I s) :
    (overSamples f src s).Succeeds fun r => I r.2 ∧ Forall₂ R src r.1 := by
  induction src generalizing s with
  | nil => exact .ok ⟨hs, .nil⟩
  | cons x src ih =>
    refine (hf x mem_cons_self s hs).bind fun r hr => ?_
    refine (ih (fun y hy => hf y (mem_cons_of_mem x hy)) hr.1).bind fun r' hr' => ?_
    exact .ok ⟨hr'.1, .cons hr.2 hr'.2⟩

/-! ### Dithering -/

/-- `struct pcm_dither`. -/
structure Dither where
  error0 : ℤ := 0
  error1 : ℤ := 0
  error2 : ℤ := 0
  random : ℤ := 0

/-- The clipping of a 24-bit output, and of the sample the error is computed from. -/
def clip (output sample : ℤ) : ℤ × ℤ :=
  if 8388607 < output then (8388607, if 8388607 < sample then 8388607 else sample)
  else if output < -8388608 then (-8388608, if sample < -8388608 then -8388608 else sample)
  else (output, sample)

/-- `pcm_dither_sample_24_to_16`, where `rnd` is what `pcm_prng` returns. -/
def ditherSample24To16 (rnd sample : ℤ) (dither : Dither) : Except Overflow (ℤ × Dither) := do
  let feedback ← int32 (dither.error0 - dither.error1)
  let feedback ← int32 (feedback + dither.error2)
  let sample ← int32 (sample + feedback)
  let output ← int32 (sample + 128)
  let noise ← int32 (rnd % 256 - dither.random % 256)
  let output ← int32 (output + noise)
  let (output, sample) := clip output sample
  let output := output - output % 256
  let error ← int32 (sample - output)
  let result ← int16 (output / 256)
  .ok (result, ⟨error, dither.error0.tdiv 2, dither.error1, rnd⟩)

/-- `pcm_dither_sample_32_to_16`. -/
def ditherSample32To16 (rnd sample : ℤ) (dither : Dither) : Except Overflow (ℤ × Dither) :=
  ditherSample24To16 rnd (sample / 256) dither

def dither24To16 :=
  overSamples ditherSample24To16

def dither32To16 :=
  overSamples ditherSample32To16

/-- The errors that are fed back. -/
structure Dither.Bounded (dither : Dither) : Prop where
  error0 : dither.error0.natAbs ≤ 383
  error1 : dither.error1.natAbs ≤ 191
  error2 : dither.error2.natAbs ≤ 191

section Dither

variable {dither : Dither} {rnd sample : ℤ}

/-- The clipped output is not farther from its sample, nor from a value that needs no clipping. -/
theorem clip_bounds (output sample : ℤ) (hlow : -127 ≤ output - sample)
    (hhigh : output - sample ≤ 383) {x : ℤ} (hx : Fits 8388608 x)
    (hdist : (output - x).natAbs ≤ 1148) :
    Fits 8388608 (clip output sample).1 ∧ ((clip output sample).1 - x).natAbs ≤ 1148 ∧
      -127 ≤ (clip output sample).1 - (clip output sample).2 ∧
      (clip output sample).1 - (clip output sample).2 ≤ 383 := by
  obtain ⟨hmin, hmax⟩ := hx
  rw [clip, Fits]
  split_ifs <;> omega

theorem ditherSample24To16_succeeds (hd : dither.Bounded) (hs : Fits 8388608 sample) :
    (ditherSample24To16 rnd sample dither).Succeeds fun r =>
      r.2.Bounded ∧ Fits 8 (r.1 - sample / 256) := by
  obtain ⟨h0, h1, h2⟩ := hd
  obtain ⟨hmin, hmax⟩ := id hs
  refine checked_bind ⟨by omega, by omega⟩ (checked_bind ⟨by omega, by omega⟩ ?_)
  refine checked_bind ⟨by omega, by omega⟩ (checked_bind ⟨by omega, by omega⟩ ?_)
  refine checked_bind ⟨by omega, by omega⟩ (checked_bind ⟨by omega, by omega⟩ ?_)
  -- the noise is below a step of the output, and the feedback below three of them
  obtain ⟨⟨hclip, hclip'⟩, hdist, hlow, hhigh⟩ := clip_bounds
    (sample + (dither.error0 - dither.error1 + dither.error2) + 128 +
      (rnd % 256 - dither.random % 256))
    (sample + (dither.error0 - dither.error1 + dither.error2)) (by omega) (by omega) hs (by omega)
  generalize clip _ _ = r at hclip hclip' hdist hlow hhigh ⊢
  have hhalf : (dither.error0.tdiv 2).natAbs ≤ 191 := by
    have hdiv : (dither.error0.tdiv 2).natAbs = dither.error0.natAbs / 2 := natAbs_tdiv _ _
    omega
  refine checked_bind ⟨by omega, by omega⟩ (checked_bind ⟨by omega, by omega⟩ (.ok ?_))
  exact ⟨⟨by dsimp only; omega, hhalf, h1⟩, by rw [Fits]; omega⟩

/-- **Error feedback.** Whatever the samples and the random numbers are, each output is within eight
steps of its sample, the errors stay bounded, and nothing overflows. -/
theorem dither_bounds (src : List (ℤ × ℤ)) :
    ((∀ x ∈ src, Fits 8388608 x.2) → (dither24To16 src {}).Succeeds fun r =>
      r.2.Bounded ∧ Forall₂ (fun x output => Fits 8 (output - x.2 / 256)) src r.1) ∧
    ((∀ x ∈ src, Fits 2147483648 x.2) → (dither32To16 src {}).Succeeds fun r =>
      r.2.Bounded ∧ Forall₂ (fun x output => Fits 8 (output - x.2 / 65536)) src r.1) := by
  have hinit : Dither.Bounded {} := ⟨by decide, by decide, by decide⟩
  refine ⟨fun hsrc => overSamples_succeeds (fun x hx d hd => ?_) hinit,
    fun hsrc => overSamples_succeeds (fun x hx d hd => ?_) hinit⟩
  · exact ditherSample24To16_succeeds hd (hsrc x hx)
  · obtain ⟨hmin, hmax⟩ := hsrc x hx
    refine (ditherSample24To16_succeeds hd ⟨by omega, by omega⟩).mono fun r hr => ⟨hr.1, ?_⟩
    obtain ⟨-, hlow, hhigh⟩ := hr
    exact ⟨by omega, by omega⟩

theorem dither_bounds_full_scale :
    let src := [(201, 8388607), (13, -8388608), (77, 300)]
    (dither24To16 src {}).Succeeds fun r =>
      r.2.Bounded ∧ Forall₂ (fun x output => Fits 8 (output - x.2 / 256)) src r.1 :=
  (dither_bounds _).1 (by decide)

end Dither

/-! ### Volume -/

/-- `enum sample_format`. -/
inductive SampleFormat
  | undefined | s8 | s16 | s24P32 | s32 | float | dsd
  deriving DecidableEq

/-- The absolute value of the smallest sample. -/
def half (bits : ℕ) : ℤ :=
  ((1 <<< (bits - 1) : ℕ) : ℤ)

/-- `pcm_range` and `pcm_range_64`. -/
def pcmRange (sample : ℤ) (bits : ℕ) : ℤ :=
  if sample < -half bits then -half bits
  else if half bits ≤ sample then half bits - 1
  else sample

/-- The body of the loops of `pcm_volume.c`: the types are that of the computation, that of the
argument of `pcm_range`, and that of the buffer. -/
def volumeSample (compute argument buffer : ℤ → Except Overflow ℤ) (bits : ℕ)
    (volume dither sample : ℤ) (_ : Unit) : Except Overflow (ℤ × Unit) := do
  let product ← compute (sample * volume)
  let sum ← compute (product + dither)
  let sum ← compute (sum + 512)
  let sample ← argument (sum.tdiv 1024)
  let output ← buffer (pcmRange sample bits)
  .ok (output, ())

def volumeChange8 (volume : ℤ) :=
  overSamples (volumeSample int32 int32 (checked 128) 8 volume)

def volumeChange16 (volume : ℤ) :=
  overSamples (volumeSample int32 int32 int16 16 volume)

def volumeChange24 (volume : ℤ) :=
  overSamples (volumeSample int64 int32 int32 24 volume)

def volumeChange32 (volume : ℤ) :=
  overSamples (volumeSample int64 int64 int32 32 volume)

/-- The portable `pcm_volume`, without a result if the format is not implemented. The samples come
with the values of `pcm_volume_dither`; `changeFloat` is `pcm_volume_change_float`. -/
def pcmVolume (changeFloat : ℤ → List ℤ → List ℤ) (buffer : List (ℤ × ℤ)) (format : SampleFormat)
    (volume : ℤ) : Except Overflow (Option (List ℤ)) :=
  if volume = 1024 then .ok (some (buffer.map Prod.snd))
  else if volume ≤ 0 then .ok (some (buffer.map fun _ => 0))
  else match format with
    | .undefined | .dsd => .ok none
    | .s8 => do .ok (some (← volumeChange8 volume buffer ()).1)
    | .s16 => do .ok (some (← volumeChange16 volume buffer ()).1)
    | .s24P32 => do .ok (some (← volumeChange24 volume buffer ()).1)
    | .s32 => do .ok (some (← volumeChange32 volume buffer ()).1)
    | .float => .ok (some (changeFloat volume (buffer.map Prod.snd)))

/-- The bits of the samples of an integer format. -/
def SampleFormat.bits : SampleFormat → Option ℕ
  | .s8 => some 8
  | .s16 => some 16
  | .s24P32 => some 24
  | .s32 => some 32
  | .undefined | .float | .dsd => none

/-- What scaling makes of a sample. -/
structure Scaled (volume sample output : ℤ) : Prop where
  natAbs_le : output.natAbs ≤ sample.natAbs
  sign : 0 ≤ output * sample
  zero : sample = 0 → output = 0
  near : (output * 1024 - sample * volume).natAbs < 2048

section Volume

variable {volume dither sample : ℤ}

/-- Truncation and rounding, for a product `p` of which only its size is known. -/
theorem tdiv_bounds {p : ℤ} (hd : dither.natAbs ≤ 511)
    (hpos : 0 ≤ sample → sample ≤ p ∧ p ≤ 1023 * sample)
    (hneg : sample ≤ 0 → p ≤ sample ∧ 1023 * sample ≤ p) :
    ((p + dither + 512).tdiv 1024 * 1024 - p).natAbs < 2048 ∧
      (0 ≤ sample → 0 ≤ (p + dither + 512).tdiv 1024 ∧ (p + dither + 512).tdiv 1024 ≤ sample) ∧
      (sample ≤ 0 → (p + dither + 512).tdiv 1024 ≤ 0 ∧ sample ≤ (p + dither + 512).tdiv 1024) := by
  rcases Int.le_total 0 (p + dither + 512) with h | h
  · rw [tdiv_eq_ediv_of_nonneg h]
    omega
  · obtain ⟨x, hx⟩ : ∃ x, x = -(p + dither + 512) := ⟨_, rfl⟩
    have hdiv : (p + dither + 512).tdiv 1024 = -(x / 1024) := by
      rw [← Int.neg_neg (p + dither + 512), ← hx, Int.neg_tdiv, tdiv_eq_ediv_of_nonneg (by omega)]
    omega

theorem mul_volume_bounds (sample : ℤ) (hlow : 1 ≤ volume) (hhigh : volume ≤ 1023) :
    (0 ≤ sample → sample ≤ sample * volume ∧ sample * volume ≤ 1023 * sample) ∧
      (sample ≤ 0 → sample * volume ≤ sample ∧ 1023 * sample ≤ sample * volume) := by
  constructor
  · intro h
    have hle := Int.mul_le_mul_of_nonneg_left hlow h
    have hle' := Int.mul_le_mul_of_nonneg_left hhigh h
    exact ⟨by omega, by omega⟩
  · intro h
    have hle := Int.mul_le_mul_of_nonpos_left h hlow
    have hle' := Int.mul_le_mul_of_nonpos_left h hhigh
    exact ⟨by omega, by omega⟩

theorem volumeSample_succeeds {compute argument buffer : ℤ} {bits : ℕ}
    (hcompute : 1023 * half bits + 1024 ≤ compute) (hargument : half bits ≤ argument)
    (hbuffer : half bits ≤ buffer) (hlow : 1 ≤ volume) (hhigh : volume ≤ 1023)
    (hd : dither.natAbs ≤ 511) (hs : Fits (half bits) sample) :
    (volumeSample (checked compute) (checked argument) (checked buffer) bits volume dither sample
      ()).Succeeds fun r => True ∧ Scaled volume sample r.1 := by
  obtain ⟨hpos, hneg⟩ := mul_volume_bounds sample hlow hhigh
  obtain ⟨hnear, hpos', hneg'⟩ := tdiv_bounds hd hpos hneg
  obtain ⟨hmin, hmax⟩ := hs
  rw [volumeSample]
  generalize hp : sample * volume = p at hpos hneg hnear hpos' hneg' ⊢
  refine checked_bind ⟨by omega, by omega⟩ (checked_bind ⟨by omega, by omega⟩ ?_)
  refine checked_bind ⟨by omega, by omega⟩ ?_
  generalize (p + dither + 512).tdiv 1024 = q at hnear hpos' hneg' ⊢
  have hrange : pcmRange q bits = q := by
    rw [pcmRange, if_neg (by omega), if_neg (by omega)]
  refine checked_bind ⟨by omega, by omega⟩ ?_
  rw [hrange]
  refine checked_bind ⟨by omega, by omega⟩ (.ok ⟨trivial, by omega, ?_, by omega, by rwa [hp]⟩)
  rcases Int.le_total 0 sample with h | h
  · exact Int.mul_nonneg (hpos' h).1 h
  · exact Int.mul_nonneg_of_nonpos_of_nonpos (hneg' h).1 h

/-- **Software volume.** Below the full volume no sample gets louder or changes its sign, each is
within two steps of the exact product, and nothing overflows. -/
theorem volume_bounds (changeFloat : ℤ → List ℤ → List ℤ) {format : SampleFormat} {bits : ℕ}
    (hformat : format.bits = some bits) (hlow : 1 ≤ volume) (hhigh : volume ≤ 1023)
    {buffer : List (ℤ × ℤ)} (hbuffer : ∀ x ∈ buffer, x.1.natAbs ≤ 511 ∧ Fits (half bits) x.2) :
    (pcmVolume changeFloat buffer format volume).Succeeds fun r => ∃ outputs, r = some outputs ∧
      Forall₂ (fun x output => Scaled volume x.2 output) buffer outputs := by
  rw [pcmVolume.eq_def, if_neg (by omega), if_neg (by omega)]
  cases format with
  | undefined | dsd | float => cases hformat
  | s8 | s16 | s24P32 | s32 =>
    cases hformat
    refine (overSamples_succeeds (I := fun _ => True) (fun x hx _ _ => volumeSample_succeeds
      (by decide) (by decide) (by decide) hlow hhigh (hbuffer x hx).1 (hbuffer x hx).2)
      trivial).bind fun r hr => .ok ⟨r.1, rfl, hr.2⟩

theorem volume_bounds_s16 : (pcmVolume (fun _ => id) [(511, -32768), (0, 32767)] .s16 512).Succeeds
    fun r => ∃ outputs, r = some outputs ∧ Forall₂ (fun x output => Scaled 512 x.2 output)
      [((511 : ℤ), (-32768 : ℤ)), (0, 32767)] outputs :=
  volume_bounds (fun _ => id) rfl (by decide) (by decide) (by decide)

end Volume

end Pcm

end Mpd
