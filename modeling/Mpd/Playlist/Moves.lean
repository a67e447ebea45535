import Mpd.Queue.Contents
import Mpd.Playlist.Run

/-!
# The playlist: moving blocks of songs

What `playlist_move_range` makes of every request a client can send: any two `unsigned` bounds and
any `int` destination, which is a position, or, if negative, an offset from the current song. The
range checks cover positions of blocks that end behind their start. They do not cover blocks that
end before they start, offsets from a current song that does not exist, and offsets that lead so
close to the end of the queue that the block does not fit.
-/

namespace Mpd

namespace Playlist

variable {σ : Type} {pl pl' : Playlist σ} {prev : Option σ}

def offsetPosition (length song start : ℕ) (dst : ℤ) : ℕ :=
  let position := (song + dst.natAbs) % length
  if start < position then position - 1 else position

def moveDestination (pl : Playlist σ) (start stop : ℕ) (dst : ℤ) : ℕ :=
  if 0 ≤ dst then dst.toNat
  else
    match pl.designated with
    | some song =>
      if start ≤ song ∧ song < stop then start
      else offsetPosition pl.queue.length song start dst
    | none => start

/-- **The range is refused or moved as a whole.** -/
def MovesBlock [Qsort] [DecidableEq σ] (pl : Playlist σ) (start stop : UInt32) (dst : Int32) :
    Prop :=
  pl.moveRange start stop dst = .ok (pl, .badRange) ∨
  (pl.moveRange start stop dst).Succeeds fun r => r.2 = .success ∧
    r.1.queue.contents = relocate pl.queue.contents start.toNat stop.toNat
      (pl.moveDestination start.toNat stop.toNat dst.toInt)

/-- The range or the destination is bad. -/
def MoveRejected (length start stop : ℕ) (dst : ℤ) : Prop :=
  ¬ (start < length ∧ 0 < stop ∧ stop ≤ length) ∨
  0 ≤ dst ∧ (dst + stop ≤ start ∨ length + start < dst + stop) ∨
  dst < 0 ∧ length < dst.natAbs ∧ dst ≠ -2147483648

/-- The destination is within the queue. -/
def MoveFeasible (pl : Playlist σ) (start stop : ℕ) (dst : ℤ) : Prop :=
  0 ≤ dst ∧ (start ≤ stop ∨ dst = start) ∨
  dst < 0 ∧ ∃ song ∈ pl.designated, (start ≤ song ∧ song < stop) ∨
    start ≤ stop ∧ offsetPosition pl.queue.length song start dst + (stop - start) ≤ pl.queue.length

/-! ### The range checks -/

theorem Inv.moveBadRange_iff (h : pl.Inv) {start stop : ℕ} {dst : ℤ} (hstop : stop < 4294967296)
    (h₁ : -2147483648 ≤ dst) (h₂ : dst < 2147483648) :
    pl.moveBadRange start stop dst = true ↔ MoveRejected pl.queue.length start stop dst := by
  have hn := h.queue.length_lt
  have hlast : unsigned ((stop : ℤ) - 1) < pl.queue.length ↔ 0 < stop ∧ stop ≤ pl.queue.length := by
    unfold unsigned
    omega
  have habs : pl.queue.length < cAbs dst ↔ pl.queue.length < dst.natAbs ∧ dst ≠ -2147483648 := by
    unfold cAbs
    split <;> omega
  simp only [moveBadRange, Queue.validPosition, Bool.or_eq_true, Bool.not_eq_true',
    decide_eq_false_iff_not, decide_eq_true_eq, Bool.and_eq_true, hlast, habs, MoveRejected]
  by_cases hvalid : start < pl.queue.length ∧ 0 < stop ∧ stop ≤ pl.queue.length
  · have hend : 0 ≤ dst → (pl.queue.length ≤ unsigned (dst + stop - start - 1) ↔
        dst + stop ≤ start ∨ pl.queue.length + start < dst + stop) := by
      unfold unsigned
      omega
    constructor
    · rintro ((h | h) | h) <;> grind
    · rintro (h | h | h) <;> grind
  · grind

/-! ### The destination -/

theorem Inv.designated_lt (h : pl.Inv) {song : ℕ} (hsong : pl.designated = some song) :
    song < pl.queue.length ∧ 0 ≤ pl.current := by
  unfold designated at hsong
  split at hsong
  · next hcur =>
    cases hsong
    exact ⟨h.queue.order_lt (by omega), hcur.1⟩
  · cases hsong

theorem Inv.moveTarget_of_current (h : pl.Inv) {song start : ℕ} {dst : ℤ}
    (hsong : pl.designated = some song) (h₁ : -2147483648 ≤ dst) (h₂ : dst < 0) :
    pl.moveTarget start dst pl.currentSong = offsetPosition pl.queue.length song start dst := by
  have hn := h.queue.length_lt
  obtain ⟨hlt, h0⟩ := h.designated_lt hsong
  have hcur : pl.currentSong = song := by rw [currentSong, hsong]; rfl
  have hsum : unsigned ((song : ℤ) + cAbs dst) = song + dst.natAbs := by
    unfold unsigned cAbs
    split <;> omega
  rw [moveTarget, if_pos ⟨h₂, h0⟩, hcur, hsum, offsetPosition]
  dsimp only
  split <;> split <;> omega

theorem Inv.inRange_of_performMove [Qsort] [DecidableEq σ] (h : pl.Inv) {start stop : ℕ} {t : ℤ}
    (hstop : stop ≤ pl.queue.length) (h₁ : -2147483648 ≤ t) (h₂ : t < 2147483648)
    {P : Playlist σ × Status → Prop} (hmove : (pl.performMove start stop t prev).Succeeds P) :
    start ≤ stop ∧ 0 ≤ t ∧ t + (stop - start) ≤ pl.queue.length := by
  have hn := h.queue.length_lt
  obtain ⟨q, hq, -⟩ := hmove.of_bind
  have hle : start ≤ stop := by
    by_contra hlt
    rw [Queue.moveRange, if_pos (by omega)] at hq
    cases hq
  have hfits : ¬ pl.queue.length < unsigned t + (stop - start) := by
    intro hout
    obtain ⟨i, hi, hlen⟩ := Queue.exists_mem_rangeIndices hle hstop hn
      (by unfold unsigned; omega) hout
    exact pl.queue.moveRange_not_succeeds (P := fun _ => True) hi hlen ⟨q, hq, trivial⟩
  unfold unsigned at hfits
  omega

theorem Inv.performMove_contents [Qsort] [DecidableEq σ] (h : pl.Inv) (hprev : pl.Editing prev)
    {start stop : ℕ} {t : ℤ} (hstop : stop ≤ pl.queue.length) (hle : start ≤ stop) (h0 : 0 ≤ t)
    (hfits : t + (stop - start) ≤ pl.queue.length) :
    (pl.performMove start stop t prev).Succeeds fun r => r.2 = .success ∧
      r.1.queue.contents = relocate pl.queue.contents start stop t.toNat := by
  have hn := h.queue.length_lt
  obtain ⟨d, rfl⟩ := Int.eq_ofNat_of_zero_le h0
  have hr : Queue.InRange start stop d pl.queue.length := ⟨hle, hstop, by omega⟩
  refine (h.performMove_succeeds hprev hr).mono fun r hr' => ⟨hr'.2.2, ?_⟩
  rw [hr'.2.1.songs.contents_eq, Int.toNat_natCast]
  exact (Queue.incrementVersion_contents _).trans (pl.queue.moveRangeBody_contents hr (by omega))

/-! ### What happens to a request -/

theorem Inv.currentSong_cases (h : pl.Inv) :
    (∃ song, pl.designated = some song ∧ pl.currentSong = song ∧ 0 ≤ pl.current) ∨
      pl.designated = none ∧ pl.current < 0 := by
  rcases lt_or_ge pl.current 0 with hneg | h0
  · exact .inr ⟨designated_of_neg hneg, hneg⟩
  · have hdes := h.designated_eq h0
    exact .inl ⟨_, hdes, by rw [currentSong, hdes]; rfl, h0⟩

theorem Inv.nothingToMove_feasible (h : pl.Inv) {start stop : UInt32} {dst : Int32}
    (hnothing : pl.NothingToMove start stop dst) :
    pl.moveDestination start.toNat stop.toNat dst.toInt = start.toNat ∧
      pl.MoveFeasible start.toNat stop.toNat dst.toInt := by
  rcases hnothing with heq | ⟨hneg, h0, hin⟩
  · exact ⟨by rw [moveDestination, if_pos (by omega)]; omega, .inl ⟨by omega, .inr heq.symm⟩⟩
  · rcases h.currentSong_cases with ⟨song, hdes, hsong, -⟩ | ⟨-, hneg'⟩
    · rw [hsong, Int.ofNat_le, Int.ofNat_lt] at hin
      exact ⟨by rw [moveDestination, if_neg (by omega), hdes]; exact if_pos hin,
        .inr ⟨hneg, song, hdes, .inl hin⟩⟩
    · omega

theorem offsetPosition_lt {length : ℕ} (hlength : 0 < length) (song start : ℕ) (dst : ℤ) :
    offsetPosition length song start dst < length := by
  have := Nat.mod_lt (song + dst.natAbs) hlength
  unfold offsetPosition
  dsimp only
  split <;> omega

theorem Inv.moveTarget_feasible (h : pl.Inv) {start stop : UInt32} {dst : Int32}
    (hvalid : ¬ MoveRejected pl.queue.length start.toNat stop.toNat dst.toInt)
    (hmove : ¬ pl.NothingToMove start stop dst) {t : ℤ}
    (ht : pl.moveTarget start.toNat dst.toInt pl.currentSong = t) :
    (-2147483648 ≤ t ∧ t < 2147483648) ∧
    (0 ≤ t → pl.moveDestination start.toNat stop.toNat dst.toInt = t.toNat) ∧
    (pl.MoveFeasible start.toNat stop.toNat dst.toInt ↔
      start.toNat ≤ stop.toNat ∧ 0 ≤ t ∧ t + (stop.toNat - start.toNat) ≤ pl.queue.length) := by
  have hn := h.queue.length_lt
  have h₁ : -2147483648 ≤ dst.toInt := dst.le_toInt
  unfold MoveRejected at hvalid
  unfold NothingToMove at hmove
  rcases lt_or_ge dst.toInt 0 with hneg | h0
  · rcases h.currentSong_cases with ⟨song, hdes, hsong, hcur⟩ | ⟨hdes, hcur⟩
    · -- an offset from the current song
      have hlt := offsetPosition_lt (show 0 < pl.queue.length by omega) song start.toNat dst.toInt
      have hout : ¬ (start.toNat ≤ song ∧ song < stop.toNat) := by omega
      rw [h.moveTarget_of_current hdes h₁ hneg] at ht
      refine ⟨by omega, fun _ => ?_, ?_⟩
      · rw [moveDestination, if_neg (by omega), hdes]
        dsimp only
        rw [if_neg hout]
        omega
      · simp only [MoveFeasible, hdes, Option.mem_def, Option.some.injEq, exists_eq_left']
        omega
    · -- an offset from nowhere
      have ht : dst.toInt = t := (if_neg (by omega)).symm.trans ht
      refine ⟨by omega, fun h0 => by omega, iff_of_false ?_ (by omega)⟩
      rintro (⟨h0, -⟩ | ⟨-, song, hsong, -⟩)
      · omega
      · rw [hdes] at hsong
        cases hsong
  · have ht : dst.toInt = t := (if_neg (by omega)).symm.trans ht
    refine ⟨by omega, fun _ => by rw [moveDestination, if_pos h0, ht], ?_⟩
    have hfeasible : pl.MoveFeasible start.toNat stop.toNat dst.toInt ↔
        start.toNat ≤ stop.toNat ∨ dst.toInt = start.toNat :=
      ⟨fun hf => (hf.resolve_right fun hneg => by omega).2, fun hf => .inl ⟨h0, hf⟩⟩
    rw [hfeasible]
    omega

/-- **Moving a block.** For every request of a client, the request is rejected or the block
relocated exactly if the range checks reject it, or it is feasible. -/
theorem movesBlock_iff [Qsort] [DecidableEq σ] (h : pl.Inv) (start stop : UInt32) (dst : Int32) :
    pl.MovesBlock start stop dst ↔
      MoveRejected pl.queue.length start.toNat stop.toNat dst.toInt ∨
        pl.MoveFeasible start.toNat stop.toNat dst.toInt := by
  have h₁ := dst.le_toInt
  have h₂ := dst.toInt_lt
  have hrej : pl.moveBadRange start.toNat stop.toNat dst.toInt = true ↔ _ :=
    h.moveBadRange_iff stop.toNat_lt h₁ h₂
  rcases h.moveRange_cases start stop dst with ⟨hbad, heq⟩ | hcases
  · exact iff_of_true (.inl heq) (.inl (hrej.mp hbad))
  have hvalid : ¬ MoveRejected pl.queue.length start.toNat stop.toNat dst.toInt := fun hr => by
    rcases hcases with ⟨hbad, -⟩ | ⟨hbad, -⟩ <;> exact absurd (hrej.mpr hr) (by simp [hbad])
  rcases hcases with ⟨-, hnothing, heq⟩ | ⟨-, hmove, prev, hprev, heq⟩
  · obtain ⟨hdest, hfeasible⟩ := h.nothingToMove_feasible hnothing
    refine iff_of_true (.inr ⟨_, heq, rfl, ?_⟩) (.inr hfeasible)
    unfold MoveRejected at hvalid
    have hstop : stop.toNat ≤ pl.queue.contents.length := by
      rw [Queue.length_contents]
      omega
    rw [hdest, relocate_self _ hstop]
  · have hstop : stop.toNat ≤ pl.queue.length := by
      unfold MoveRejected at hvalid
      omega
    obtain ⟨⟨ht₁, ht₂⟩, hdest, hfeasible⟩ := h.moveTarget_feasible hvalid hmove rfl
    rw [or_iff_right hvalid, hfeasible]
    constructor
    · rintro (hok | hok)
      · exact h.inRange_of_performMove (P := fun _ => True) hstop ht₁ ht₂
          ⟨_, heq.symm.trans hok, trivial⟩
      · exact h.inRange_of_performMove hstop ht₁ ht₂ (heq ▸ hok)
    · rintro ⟨hle, h0, hfits⟩
      rw [MovesBlock, hdest h0, heq]
      exact .inr (h.performMove_contents hprev hstop hle h0 hfits)

theorem movesBlock_first_two : ∃ pl, Reached pl ∧ pl.queue.length = 3 ∧
      pl.MovesBlock 0 2 1 := by
  obtain ⟨pl, hpl, hlen⟩ := exists_reached
    [.appendSong 10, .appendSong 11, .appendSong 12] (P := fun pl => pl.queue.length = 3)
    (by decide)
  refine ⟨pl, hpl, hlen, (movesBlock_iff hpl.inv 0 2 1).mpr ?_⟩
  exact .inr (.inl ⟨by decide, .inl (by decide)⟩)

theorem not_movesBlock_offset : ∃ pl, Reached pl ∧ pl.queue.length = 1 ∧ pl.current = -1 ∧
      pl.moveRange 0 1 (-1) = .error (.position 4294967295) ∧ ¬ pl.MovesBlock 0 1 (-1) := by
  obtain ⟨pl, hpl, hlen, hcur, hfault⟩ := exists_reached
    [.appendSong 10] (P := fun pl => pl.queue.length = 1 ∧
      pl.current = -1 ∧ pl.moveRange 0 1 (-1) = .error (.position 4294967295)) (by decide)
  refine ⟨pl, hpl, hlen, hcur, hfault, ?_⟩
  rw [MovesBlock, hfault]
  rintro (h | h)
  · cases h
  · exact Except.not_succeeds_error h

end Playlist

end Mpd
