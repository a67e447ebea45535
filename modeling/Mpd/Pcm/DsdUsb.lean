import Mpd.General.Outcome

/-!
# DSD over USB

`pcm_dsd_usb.c` packs two DSD bytes of a channel into a 32-bit word, below a marker that alternates
from frame to frame. The loop writes two frames at a time, and so not the last one of an odd number,
which the reported size includes (`dsdToUsb_fills_iff`).
-/

namespace Mpd

namespace Pcm

open List Except Nat

/-! ### The source -/

inductive DsdUsbFault
  /-- one of the assertions at the beginning -/
  | assertion
  /-- a byte behind the end of the source is read -/
  | source
  deriving DecidableEq, Repr

/-- `pcm_two_dsd_to_usb_marker1`. -/
def twoDsdToUsbMarker1 (a b : UInt8) : UInt32 :=
  (0xff050000 : UInt32) ||| a.toUInt32 <<< 8 ||| b.toUInt32

/-- `pcm_two_dsd_to_usb_marker2`. -/
def twoDsdToUsbMarker2 (a b : UInt8) : UInt32 :=
  (0xfffa0000 : UInt32) ||| a.toUInt32 <<< 8 ||| b.toUInt32

/-- The loops over the channels of a frame. `src` begins where the source pointer is, and `dest` are
the words that have been written. -/
def usbChannels (marker : UInt8 → UInt8 → UInt32) (channels : ℕ) :
    ℕ → List UInt8 → List UInt32 → Except DsdUsbFault (List UInt8 × List UInt32)
  | 0, src, dest => .ok (src, dest)
  | c + 1, src, dest =>
    match src[0]?, src[channels]? with
    | some a, some b => usbChannels marker channels c (src.drop 1) (dest ++ [marker a b])
    | _, _ => .error .source

/-- The loop over pairs of frames. -/
def usbFrames (channels : ℕ) :
    ℕ → List UInt8 → List UInt32 → Except DsdUsbFault (List UInt32)
  | 0, _, dest => .ok dest
  | i + 1, src, dest => do
    let (src, dest) ← usbChannels twoDsdToUsbMarker1 channels channels src dest
    let src := src.drop channels
    let (src, dest) ← usbChannels twoDsdToUsbMarker2 channels channels src dest
    usbFrames channels i (src.drop channels) dest

def usbNumFrames (channels : ℕ) (src : List UInt8) : ℕ :=
  src.length % 4294967296 / channels / 2

/-- `pcm_dsd_to_usb`: the value of `dest_size_r`, and the words that are written to a buffer of that
size. -/
def dsdToUsb (channels : ℕ) (src : List UInt8) : Except DsdUsbFault (ℕ × List UInt32) :=
  if ¬ (1 ≤ channels ∧ channels ≤ 8) ∨ src.length = 0 ∨ src.length % channels ≠ 0 then
    .error .assertion
  else do
    let numSamples := usbNumFrames channels src * channels % 4294967296
    let dest ← usbFrames channels (usbNumFrames channels src / 2) src []
    .ok (numSamples * 4 % 4294967296, dest)

/-! ### Words -/

def usbMarker (j : ℕ) : UInt8 → UInt8 → UInt32 :=
  if j % 2 = 0 then twoDsdToUsbMarker1 else twoDsdToUsbMarker2

/-- The word of a channel in frame `j`, from the bytes of the frames `2 * j` and `2 * j + 1`. -/
def usbWord (src : List UInt8) (channels j c : ℕ) : UInt32 :=
  usbMarker j (src.getD (2 * j * channels + c) 0) (src.getD ((2 * j + 1) * channels + c) 0)

def usbFrame (src : List UInt8) (channels j : ℕ) : List UInt32 :=
  (range channels).map (usbWord src channels j)

/-- The words that are written fill the reported size, and are those of the frames, channel by
channel. -/
def UsbFilled (channels : ℕ) (src : List UInt8) (r : ℕ × List UInt32) : Prop :=
  r.2.length * 4 = r.1 ∧
    r.2 = (range (usbNumFrames channels src)).flatMap (usbFrame src channels)

section

variable {channels : ℕ} {src : List UInt8}

theorem usbChannels_eq {marker : UInt8 → UInt8 → UInt32} {c : ℕ} {dest : List UInt32}
    (h : c + channels ≤ src.length) :
    usbChannels marker channels c src dest = .ok (src.drop c,
      dest ++ (range c).map fun i => marker (src.getD i 0) (src.getD (channels + i) 0)) := by
  induction c generalizing src dest with
  | zero => simp [usbChannels]
  | succ c ih =>
    have hread : ∀ i < src.length, src[i]? = some (src.getD i 0) := by
      intro i hi
      rw [getD_eq_getElem?_getD, getElem?_eq_getElem hi]
      rfl
    rw [usbChannels, hread 0 (by omega), hread channels (by omega)]
    refine (ih (by rw [length_drop]; omega)).trans ?_
    rw [drop_drop, Nat.add_comm 1 c, append_assoc, singleton_append, range_succ_eq_map, map_cons,
      map_map]
    simp [Function.comp_def, Nat.add_assoc]

theorem usbChannels_frame {j p : ℕ} {dest : List UInt32} (hp : 2 * j * channels = p)
    (h : p + 2 * channels ≤ src.length) :
    usbChannels (usbMarker j) channels channels (src.drop p) dest =
      .ok (src.drop (p + channels), dest ++ usbFrame src channels j) := by
  have hsecond : (2 * j + 1) * channels = p + channels := by rw [Nat.add_one_mul, hp]
  rw [usbChannels_eq (by rw [length_drop]; omega), drop_drop]
  simp [usbFrame, usbWord, hp, hsecond, Nat.add_assoc]

theorem usbFrames_eq {i j p : ℕ} (dest : List UInt32) (hj : j % 2 = 0) (hp : 2 * j * channels = p)
    (h : p + 4 * i * channels ≤ src.length) :
    usbFrames channels i (src.drop p) dest =
      .ok (dest ++ (range' j (2 * i)).flatMap (usbFrame src channels)) := by
  induction i generalizing j p dest with
  | zero => simp [usbFrames]
  | succ i ih =>
    rw [Nat.mul_add 4, Nat.add_mul] at h
    have hstep : ∀ j p, 2 * j * channels = p →
        2 * (j + 1) * channels = p + channels + channels := by
      intro j p hp
      rw [Nat.mul_add, Nat.add_mul, hp]
      omega
    have hnext := hstep j p hp
    have hfirst : twoDsdToUsbMarker1 = usbMarker j := (if_pos hj).symm
    have hsecond : twoDsdToUsbMarker2 = usbMarker (j + 1) := (if_neg (by omega)).symm
    rw [usbFrames, hfirst, usbChannels_frame hp (by omega), ok_bind]
    dsimp only
    rw [drop_drop, hsecond, usbChannels_frame hnext (by omega), ok_bind]
    rw [drop_drop, ih _ (by omega) (hstep _ _ hnext) (by omega),
      show 2 * (i + 1) = 2 * i + 1 + 1 by omega, range'_succ, range'_succ]
    simp

theorem usbNumFrames_mul_le (channels : ℕ) (src : List UInt8) :
    usbNumFrames channels src * channels * 2 ≤ src.length % 4294967296 := by
  have h₁ := Nat.div_mul_le_self (src.length % 4294967296 / channels) 2
  have h₂ := Nat.div_mul_le_self (src.length % 4294967296) channels
  rw [Nat.mul_right_comm]
  exact Nat.le_trans (Nat.mul_le_mul_right channels h₁) h₂

theorem dsdToUsb_eq (hchannels : 1 ≤ channels ∧ channels ≤ 8) (hwhole : src.length % channels = 0)
    (hsrc : src ≠ []) : dsdToUsb channels src =
      .ok (usbNumFrames channels src * channels * 4 % 4294967296,
        (range (2 * (usbNumFrames channels src / 2))).flatMap (usbFrame src channels)) := by
  have hle := usbNumFrames_mul_le channels src
  have hpos := length_pos_iff.mpr hsrc
  have hframes : 0 + 4 * (usbNumFrames channels src / 2) * channels ≤ src.length := by
    have hround : 4 * (usbNumFrames channels src / 2) ≤ usbNumFrames channels src * 2 := by omega
    have := mul_le_mul_right channels hround
    rw [Nat.mul_right_comm _ 2] at this
    omega
  have hrun := usbFrames_eq [] (Nat.zero_mod 2) (Nat.zero_mul channels) hframes
  rw [drop_zero, ← range_eq_range', nil_append] at hrun
  have hsamples : usbNumFrames channels src * channels % 4294967296 =
      usbNumFrames channels src * channels := mod_eq_of_lt (by omega)
  rw [dsdToUsb, if_neg (by omega), hrun, hsamples]
  rfl

/-- **DSD over USB.** All words of the reported size are written, and are those of the source, if
and only if the number of frames is even and the size fits into 32 bits. Without any source an
assertion fails. -/
theorem dsdToUsb_fills_iff {channels : ℕ} {src : List UInt8}
    (hchannels : 1 ≤ channels ∧ channels ≤ 8) (hwhole : src.length % channels = 0) :
    (dsdToUsb channels src).Succeeds (UsbFilled channels src) ↔
      src ≠ [] ∧ usbNumFrames channels src * channels < 1073741824 ∧
        usbNumFrames channels src % 2 = 0 := by
  by_cases hsrc : src = []
  · subst hsrc
    simp [dsdToUsb]
  · have hle := usbNumFrames_mul_le channels src
    have hlength : ∀ n, ((range n).flatMap (usbFrame src channels)).length = n * channels := by
      simp only [usbFrame, length_flatMap, length_map, length_range, map_const', sum_replicate_nat,
        implies_true]
    obtain ⟨m, hm⟩ : ∃ m, m = usbNumFrames channels src / 2 := ⟨_, rfl⟩
    rw [dsdToUsb_eq hchannels hwhole hsrc, succeeds_ok, UsbFilled, hlength, and_iff_right hsrc,
      ← hm]
    rcases Nat.mod_two_eq_zero_or_one (usbNumFrames channels src) with heven | hodd
    · rw [show usbNumFrames channels src = 2 * m by omega] at hle ⊢
      exact ⟨fun h => ⟨by omega, by omega⟩, fun h => ⟨by omega, rfl⟩⟩
    · rw [show usbNumFrames channels src = 2 * m + 1 by omega, Nat.add_one_mul (2 * m)] at hle ⊢
      exact ⟨fun h => by omega, fun h => by omega⟩

/-- The two bytes of one frame are reported as a word, and no word is written. -/
theorem dsdToUsb_odd : (dsdToUsb 1 [1, 2]).Succeeds fun r => r.2.length * 4 ≠ r.1 := by
  decide

theorem dsdToUsb_fills_even : (dsdToUsb 1 [1, 2, 3, 4]).Succeeds (UsbFilled 1 [1, 2, 3, 4]) :=
  (dsdToUsb_fills_iff (by decide) (by decide)).mpr (by decide)

end

end Pcm

end Mpd
