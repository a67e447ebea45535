import Mpd.Queue.Contents
import Mpd.Queue.Versions
import Mpd.Playlist.Run

/-!
# The playlist: what clients learn about changes

Every operation of the playlist leaves the items and their versions alone (`Quiet`), or rewrites
some slots of the queue and then increments the version. With this, a client that has read the
version of the queue learns of every change from `queue_song_newer`, and of nothing else.

No invariant is needed: the results hold for every operation that returns, in every mode.
-/

namespace Mpd

open Set

open Arrangement (Draws)

namespace Playlist

variable {σ : Type} {pl pl' pl'' : Playlist σ} {prev : Option σ}

/-! ### Operations that leave the items alone -/

def Quiet (pl pl' : Playlist σ) : Prop :=
  pl.queue.SameSlots pl'.queue

theorem Quiet.of_queue (h : pl'.queue = pl.queue) : pl.Quiet pl' := by
  rw [Quiet, h]
  exact .refl

theorem Quiet.refl : pl.Quiet pl :=
  .of_queue rfl

theorem Quiet.trans (h : pl.Quiet pl') (h' : pl'.Quiet pl'') : pl.Quiet pl'' :=
  Queue.SameSlots.trans h h'

theorem Quiet.after (h : pl'.Quiet pl'') (hversion : pl'.queue.version = pl.queue.version)
    (hwraps : pl'.queue.wraps = pl.queue.wraps) (hitems : pl'.queue.items = pl.queue.items)
    (hlength : pl'.queue.length = pl.queue.length) : pl.Quiet pl'' :=
  Quiet.trans ⟨hversion, hwraps, hitems, hlength⟩ h

section

variable (pl : Playlist σ)

theorem playOrder_quiet (order : ℤ) : (pl.playOrder order).Yields pl.Quiet :=
  .after fun _ => .ok .refl

theorem restoreOrder_quiet : pl.restoreOrder.Yields pl.Quiet :=
  .after fun _ => .ok ⟨rfl, rfl, rfl, rfl⟩

theorem currentFirst_quiet (position : Option ℕ) : (pl.currentFirst position).Yields pl.Quiet := by
  cases position with
  | none => exact .ok .refl
  | some p =>
    exact .after fun _ => .ok ⟨rfl, rfl, rfl, rfl⟩

theorem startAt_quiet (order : ℤ) : (pl.startAt order).Yields fun r => pl.Quiet r.1 :=
  (playOrder_quiet _ order).bind fun _ h => .ok h

theorem playSong_quiet (song : ℤ) (i : ℕ) : (pl.playSong song i).Yields fun r => pl.Quiet r.1 := by
  refine .branch ?_ <| pl.startAt_quiet i
  refine .after fun order => ?_
  exact (startAt_quiet _ _).mono fun r h => h.after rfl rfl rfl rfl

theorem play_quiet (song : ℤ) : (pl.play song).Yields fun r => pl.Quiet r.1 := by
  refine .branch ?_ ?_
  · refine .branch (.ok .refl) ?_
    refine .branch (.ok .refl) ?_
    exact playSong_quiet _ _ _
  · refine .branch ?_ <| .ok .refl
    exact playSong_quiet _ _ _

theorem playId_quiet (id : ℤ) : (pl.playId id).Yields fun r => pl.Quiet r.1 := by
  refine .branch (pl.play_quiet id) ?_
  exact .branch (.ok .refl) <| pl.play_quiet _

theorem previous_quiet : pl.previous.Yields pl.Quiet := by
  refine .branch ?_ <| .ok .refl
  refine .branch (pl.playOrder_quiet _) ?_
  exact .branch (pl.playOrder_quiet _) <| pl.playOrder_quiet _

theorem swapCurrent_quiet (song₁ song₂ : ℕ) : (pl.swapCurrent song₁ song₂).Yields pl.Quiet := by
  refine .branch ?_ ?_
  · refine .after fun _ => .after fun _ => ?_
    exact .ok ⟨rfl, rfl, rfl, rfl⟩
  · refine .branch (.ok .refl) ?_
    refine .branch ?_ ?_ <;> exact .ok .refl

theorem restoreCurrent_quiet (position : Option ℕ) :
    (pl.restoreCurrent position).Yields pl.Quiet := by
  cases position with
  | none => exact .ok .refl
  | some p => exact .after fun _ => .ok .refl

end

theorem enqueueNext_quiet [DecidableEq σ] (pl : Playlist σ) (prev : Option σ) (nextOrder : ℤ) :
    (pl.enqueueNext prev nextOrder).Yields pl.Quiet := by
  refine .after fun nextSong => ?_
  have hcancel : (pl.cancelQueued prev nextSong).queue = pl.queue := by
    rw [(pl.cancelQueued_frame prev nextSong).1]
  refine .branch ?_ <| .ok (.of_queue hcancel)
  refine .branch ?_ <| .ok (.of_queue hcancel)
  exact .after fun _ => .ok (.of_queue hcancel)

section Quiet

variable [Qsort]

section

variable (pl : Playlist σ)

theorem reshuffle_quiet : pl.reshuffle.Yields pl.Quiet := by
  refine .after fun _ => ?_
  refine pl.queue.shuffleOrder_succeeds.yields.bind fun q hq => ?_
  exact .after fun _ => .ok hq.1.sameSlots

theorem stop_quiet : pl.stop.Yields pl.Quiet := by
  refine .branch ?_ <| .ok .refl
  refine .branch ?_ <| .ok .refl
  exact reshuffle_quiet _

theorem startCycle_quiet (nextOrder : ℤ) : (pl.startCycle nextOrder).Yields pl.Quiet :=
  .branch pl.reshuffle_quiet <| .ok .refl

theorem applyRandom_quiet (status : Bool) : (pl.applyRandom status).Yields pl.Quiet := by
  refine .branch ?_ <| pl.restoreOrder_quiet
  refine .after fun position => ?_
  refine pl.queue.shuffleOrder_succeeds.yields.bind fun q hq => ?_
  exact (currentFirst_quiet _ position).mono fun pl' h => hq.1.sameSlots.trans h

theorem advance_quiet : pl.advance.Yields pl.Quiet := by
  refine .branch ?_ ?_
  · exact pl.stop_quiet.bind fun _ h => .ok h
  · refine .branch ?_ <| pl.playOrder_quiet _
    refine pl.queue.shuffleOrder_succeeds.yields.bind fun q hq => ?_
    exact (playOrder_quiet _ _).mono fun _ h => hq.1.sameSlots.trans h

theorem leaveSong_quiet (songOrder : ℕ) (queued : Option σ) :
    (pl.leaveSong songOrder queued).Yields fun r => pl.Quiet r.1 := by
  refine .branch ?_ ?_
  · refine .bind ?_ fun pl' h => .ok h
    refine .branch (playOrder_quiet _ _) ?_
    exact (stop_quiet _).bind fun pl' h => .ok h
  · refine .branch ?_ ?_ <;> exact .ok .refl

end

variable [DecidableEq σ] (pl : Playlist σ)

theorem updateQueuedSong_quiet (prev : Option σ) : (pl.updateQueuedSong prev).Yields pl.Quiet := by
  refine .branch ?_ <| .ok .refl
  refine .branch .error ?_
  refine .branch .error ?_
  refine (pl.startCycle_quiet _).bind fun pl₁ h₁ => ?_
  refine (pl₁.enqueueNext_quiet prev _).bind fun pl₂ h₂ => .ok ?_
  refine (h₁.trans h₂).trans (.of_queue ?_)
  rw [recordUpdate]
  split <;> rfl

theorem modeChanged_quiet : pl.modeChanged.Yields pl.Quiet :=
  .after fun _ => updateQueuedSong_quiet _ _

theorem setRepeat_quiet (status : Bool) : (pl.setRepeat status).Yields pl.Quiet := by
  refine .branch (.ok .refl) ?_
  exact (modeChanged_quiet _).mono fun pl' h => h.after rfl rfl rfl rfl

theorem setSingle_quiet (status : Bool) : (pl.setSingle status).Yields pl.Quiet := by
  refine .branch (.ok .refl) ?_
  exact (modeChanged_quiet _).mono fun pl' h => h.after rfl rfl rfl rfl

theorem setRandom_quiet (status : Bool) : (pl.setRandom status).Yields pl.Quiet := by
  refine .branch (.ok .refl) ?_
  refine .after fun queued => ?_
  refine (applyRandom_quiet _ status).bind fun pl₁ h₁ => ?_
  exact (pl₁.updateQueuedSong_quiet queued).mono fun pl₂ h₂ => (h₁.trans h₂).after rfl rfl rfl rfl

/-! ### Playback control -/

theorem seekSong_quiet (song : ℕ) : (pl.seekSong song).Yields fun r => pl.Quiet r.1 := by
  refine .branch ?_ <| .ok .refl
  refine .after fun _ => .after fun i => ?_
  refine .after fun target => ?_
  refine (updateQueuedSong_quiet _ none).bind fun pl' h => .ok ?_
  refine (Quiet.of_queue ?_).trans h
  simp only [changeSong]
  split <;> rfl

theorem seekSongId_quiet (id : ℕ) : (pl.seekSongId id).Yields fun r => pl.Quiet r.1 :=
  .branch (.ok .refl) <| pl.seekSong_quiet _

theorem seekCurrent_quiet (relative : Bool) :
    (pl.seekCurrent relative).Yields fun r => pl.Quiet r.1 := by
  refine .branch ?_ <| .ok .refl
  refine .branch ?_ <| pl.seekSong_quiet _
  exact .branch (.ok .refl) <| seekSong_quiet _ _

end Quiet

/-! ### Edits -/

section Edits

theorem shuffleStart_yields (pl : Playlist σ) {start stop : ℕ} :
    (pl.shuffleStart start stop).Yields fun r => r.1.queue.length = pl.queue.length ∧
      ∃ W, Queue.Rewrites W pl.queue r.1.queue ∧ W ∪ Set.Ico r.2 stop = Set.Ico start stop := by
  have hnone : Queue.Rewrites ∅ pl.queue pl.queue ∧ ∅ ∪ Set.Ico start stop = Set.Ico start stop :=
    ⟨.refl, empty_union _⟩
  refine .branch ?_ <| .ok ⟨rfl, ∅, hnone⟩
  refine .after fun position => ?_
  refine .ite (fun hin => ?_) fun _ => .ok ⟨rfl, ∅, hnone⟩
  refine .after fun current => .ok
    ⟨rfl, _, pl.queue.rewrites_swap start position, ?_⟩
  ext p
  simp only [mem_union, mem_insert_iff, mem_singleton_iff, mem_Ico]
  omega

variable [Qsort] [DecidableEq σ]

theorem finishEdit_yields {q : Queue σ} (h : Queue.Rewrites W q pl.queue) (prev : Option σ) :
    (pl.finishEdit prev).Yields fun r => Queue.Revised W q r.1.queue :=
  (updateQueuedSong_quiet _ prev).bind fun _ hr => .ok (.edit h hr)

variable (pl : Playlist σ)

theorem appendSong_yields (song : σ) : (pl.appendSong song).Yields fun r =>
      Queue.Revised (if pl.queue.isFull then ∅ else {pl.queue.length}) pl.queue r.1.queue := by
  rw [appendSong]
  split
  · exact .ok (.silent .refl)
  · refine .after fun queued => ?_
    refine (pl.queue.append_yields song 0).bind fun r hr => ?_
    refine finishEdit_yields (hr.trans_sameSlots ?_) queued
    split
    · exact (shuffleAppended_sameSongs { pl with queue := r.1 }).sameSlots
    · exact .refl

theorem swapSongs_yields (song₁ song₂ : ℕ) :
    (pl.swapSongs song₁ song₂).Yields fun r => Queue.Revised
      (if pl.queue.validPosition song₁ && pl.queue.validPosition song₂ then {song₁, song₂} else ∅)
      pl.queue r.1.queue := by
  rw [swapSongs]
  split
  · refine .after fun queued => ?_
    refine (swapCurrent_quiet _ song₁ song₂).bind fun pl₁ h₁ => ?_
    exact finishEdit_yields ((pl.queue.rewrites_swap song₁ song₂).trans_sameSlots h₁) queued
  · exact .ok (.silent .refl)

theorem setPriority_yields (start stop priority : ℕ) :
    (pl.setPriority start stop priority).Yields fun r => Queue.Revised
      (pl.queue.otherPriority start (min stop pl.queue.length) priority) pl.queue r.1.queue := by
  have hempty : min stop pl.queue.length ≤ start →
      pl.queue.otherPriority start (min stop pl.queue.length) priority = ∅ := fun hle =>
    eq_empty_of_forall_notMem fun p hp => by have := hp.1; omega
  refine .ite (fun hstart => ?_) fun hstart => ?_
  · rw [hempty (by omega)]
    exact .ok (.silent .refl)
  · refine .ite (fun hstop => ?_) fun hstop => ?_
    · rw [hempty hstop]
      exact .ok (.silent .refl)
    · refine .after fun position => .after fun queued => ?_
      refine (pl.queue.setPriorityRange_yields (by omega) priority pl.current).bind fun r hr => ?_
      have hrewrites :=
        (pl.queue.rewrites_withPriorities start _ priority).trans_sameSlots hr.sameSlots
      refine (restoreCurrent_quiet { pl with queue := r.1 } position).bind fun pl₁ h₁ => ?_
      exact finishEdit_yields (hrewrites.trans_sameSlots h₁) queued

def movedSlots (pl : Playlist σ) (start stop : ℕ) (dst : ℤ) : Set ℕ :=
  if pl.moveBadRange start stop dst then ∅
  else if start = dst then ∅
  else
    match pl.getCurrentSong with
    | .error _ => ∅
    | .ok song =>
      if dst < 0 ∧ 0 ≤ pl.current ∧ start ≤ song ∧ song < stop then ∅
      else Queue.targets (Queue.rangeMoves start stop (unsigned (pl.moveTarget start dst song)))

theorem moveRange_yields (start stop : UInt32) (dst : Int32) :
    (pl.moveRange start stop dst).Yields fun r =>
      Queue.Revised (pl.movedSlots start.toNat stop.toNat dst.toInt) pl.queue r.1.queue := by
  rw [moveRange, movedSlots]
  split
  · exact .ok (.silent .refl)
  · split
    · exact .ok (.silent .refl)
    · refine .after fun queued => ?_
      cases pl.getCurrentSong with
      | error fault => exact .error
      | ok song =>
        rw [Except.ok_bind]
        dsimp only
        split
        · exact .ok (.silent .refl)
        · exact (pl.queue.moveRange_yields _ _ _).bind fun q hq => finishEdit_yields hq queued

theorem shuffle_yields (start stop : ℕ) : (pl.shuffle start stop).Yields fun pl' => Queue.Revised
      (if min stop pl.queue.length ≤ unsigned (start + 1) then ∅
        else Set.Ico start (min stop pl.queue.length)) pl.queue pl'.queue := by
  rw [shuffle]
  split
  · exact .ok (.silent .refl)
  · refine .after fun queued => ?_
    refine pl.shuffleStart_yields.bind fun r hr => ?_
    obtain ⟨hlen, W, hW, hunion⟩ := hr
    have hrewrites := hW.trans (r.1.queue.rewrites_shuffleRange r.2
      (show min stop pl.queue.length ≤ r.1.queue.length by omega))
    rw [hunion] at hrewrites
    refine (finishEdit_yields hrewrites queued).bind fun r' hr' => ?_
    exact .ok hr'

/-! ### Deletions -/

variable [SongRef σ]

omit [DecidableEq σ] in
theorem deleteInternal_yields (song : ℕ) (queued : Option σ) :
    (pl.deleteInternal song queued).Yields fun r =>
      Queue.Rewrites (Set.Ico song (pl.queue.length - 1)) pl.queue r.1.queue ∧
        r.1.queue.length = pl.queue.length - 1 := by
  refine .after fun songOrder => ?_
  refine (pl.leaveSong_quiet songOrder queued).bind fun r hr => ?_
  refine .bind ?_ fun pl₁ h₁ => .ok h₁
  refine .after fun deleted => ?_
  obtain ⟨pc, hpc, -⟩ := r.1.forgetSong_eq deleted
  rw [hpc]
  refine (r.1.queue.delete_yields song).bind fun q hq => .ok ?_
  rw [hr.length] at hq
  exact ⟨hr.trans_rewrites hq.1, hq.2⟩

def deletedSlots (start n length : ℕ) : Set ℕ :=
  { p | 0 < n ∧ start + n < length ∧ start ≤ p ∧ p < length - 1 }

omit [DecidableEq σ] in
theorem deleteDown_yields (start n : ℕ) (pl : Playlist σ) (queued : Option σ) :
    (deleteDown start n pl queued).Yields fun r =>
      Queue.Rewrites (deletedSlots start n pl.queue.length) pl.queue r.1.queue := by
  induction n generalizing pl queued with
  | zero =>
    have hempty : deletedSlots start 0 pl.queue.length = ∅ :=
      eq_empty_of_forall_notMem fun p hp => Nat.lt_irrefl 0 hp.1
    rw [hempty]
    exact .ok .refl
  | succ n ih =>
    refine (pl.deleteInternal_yields (start + n) queued).bind fun r hr => ?_
    refine (ih r.1 r.2).mono fun r' hr' => ?_
    have hunion : Set.Ico (start + n) (pl.queue.length - 1) ∪
          deletedSlots start n (pl.queue.length - 1) =
        deletedSlots start (n + 1) pl.queue.length := by
      ext p
      simp only [deletedSlots, mem_union, mem_Ico, mem_ofPred_eq]
      omega
    rw [← hunion]
    rw [hr.2] at hr'
    exact hr.1.trans hr'

theorem delete_yields (song : ℕ) : (pl.delete song).Yields fun r =>
      Queue.Revised (Set.Ico song (pl.queue.length - 1)) pl.queue r.1.queue := by
  refine .ite (fun hsong => ?_) fun _ => ?_
  · rw [Set.Ico_eq_empty (by omega)]
    exact .ok (.silent .refl)
  · refine .after fun queued => ?_
    exact (pl.deleteInternal_yields song queued).bind fun r hr => finishEdit_yields hr.1 r.2

theorem deleteRange_yields (start stop : ℕ) :
    (pl.deleteRange start stop).Yields fun r => Queue.Revised
      (deletedSlots start (min stop pl.queue.length - start) pl.queue.length) pl.queue
      r.1.queue := by
  have hempty : min stop pl.queue.length ≤ start →
      deletedSlots start (min stop pl.queue.length - start) pl.queue.length = ∅ := fun hle =>
    eq_empty_of_forall_notMem fun p hp => by have := hp.1; omega
  refine .ite (fun hstart => ?_) fun hstart => ?_
  · rw [hempty (by omega)]
    exact .ok (.silent .refl)
  · refine .ite (fun hstop => ?_) fun hstop => ?_
    · rw [hempty hstop]
      exact .ok (.silent .refl)
    · refine .after fun queued => ?_
      exact (deleteDown_yields start _ pl queued).bind fun r hr => finishEdit_yields hr r.2

end Edits

/-! ### All operations -/

def Evolves (pl pl' : Playlist σ) : Prop :=
  Queue.History pl.queue pl'.queue

theorem Quiet.evolves (h : pl.Quiet pl') : pl.Evolves pl' :=
  Queue.SameSlots.history h

section Operations

theorem tagChanged_evolves (pl : Playlist σ) : pl.tagChanged.Yields pl.Evolves := by
  refine .branch ?_ <| .ok .refl
  exact (pl.queue.modify_history _).bind fun q h => .ok h

variable [Qsort] [DecidableEq σ] [SongRef σ]

theorem deleteSongBelow_evolves (song : σ) (n : ℕ) (pl : Playlist σ) :
    (deleteSongBelow song n pl).Yields pl.Evolves := by
  induction n generalizing pl with
  | zero => exact .ok .refl
  | succ n ih =>
    refine .after fun found => ?_
    refine .branch ?_ <| ih pl
    refine (pl.delete_yields n).bind fun r hr => ?_
    exact (ih r.1).mono fun pl' h => hr.history.trans h

variable (pl : Playlist σ)

theorem deleteSong_evolves (song : σ) : (pl.deleteSong song).Yields pl.Evolves :=
  (deleteSongBelow_evolves song _ pl).bind fun _ h => .ok h

omit [DecidableEq σ] in
theorem clear_evolves : pl.clear.Yields pl.Evolves := by
  refine pl.stop_quiet.bind fun pl₁ h₁ => .ok ?_
  have hclear := h₁.trans_rewrites pl₁.queue.rewrites_clear
  rw [forgetSongs_frame]
  exact (Queue.Revised.edit hclear .refl).history

theorem consumeSong_evolves (order : ℤ) : (pl.consumeSong order).Yields pl.Evolves := by
  refine .branch ?_ <| .ok .refl
  refine .after fun position => ?_
  exact (pl.delete_yields position).bind fun r hr => .ok hr.history

theorem next_evolves : pl.next.Yields pl.Evolves := by
  refine .branch ?_ <| .ok .refl
  refine (advance_quiet _).bind fun pl₁ h₁ => ?_
  exact (pl₁.consumeSong_evolves _).mono fun pl' h => h₁.evolves.trans h

theorem sync_evolves : pl.sync.Yields pl.Evolves := by
  refine .branch ?_ <| .ok .refl
  refine .branch ?_ ?_
  · refine .branch ?_ <| next_evolves _
    exact (stop_quiet _).mono fun pl' h => h.evolves
  · refine .bind (P := pl.Evolves) ?_ fun pl₁ h₁ => ?_
    · refine .branch ?_ <| .ok .refl
      exact consumeSong_evolves _ _
    · refine .branch ?_ <| .ok h₁
      exact (updateQueuedSong_quiet _ none).mono fun pl' h => h₁.trans h.evolves

theorem Op.run_evolves (op : Op σ) (pl : Playlist σ) : (op.run pl).Yields pl.Evolves := by
  have hquiet : ∀ {x : Except Fault (Playlist σ × Status)}, (x.Yields fun r => pl.Quiet r.1) →
      (Prod.fst <$> x).Yields pl.Evolves := fun hx => .fst (hx.mono fun r hr => hr.evolves)
  have hedit : ∀ {W : Set ℕ} {x : Except Fault (Playlist σ × Status)},
      (x.Yields fun r => Queue.Revised W pl.queue r.1.queue) → x.Yields fun r => pl.Evolves r.1 :=
    fun hx => hx.mono fun r hr => hr.history
  have hnone : (Except.ok (pl, Status.noSuchSong) : Except Fault _).Yields
      fun r => pl.Evolves r.1 := .ok .refl
  cases op with
  | clear => exact pl.clear_evolves
  | appendSong song => exact .fst (hedit (pl.appendSong_yields song))
  | swapSongs p₁ p₂ => exact .fst (hedit (pl.swapSongs_yields p₁ p₂))
  | swapSongsId id₁ id₂ =>
    exact .fst (.branch hnone <| hedit (pl.swapSongs_yields _ _))
  | setPriority start stop priority =>
    exact .fst (hedit (pl.setPriority_yields start stop priority))
  | setPriorityId id priority =>
    exact .fst (.branch hnone <| hedit (pl.setPriority_yields _ _ _))
  | delete song => exact .fst (hedit (pl.delete_yields song))
  | deleteId id =>
    exact .fst (.branch hnone <| hedit (pl.delete_yields _))
  | deleteRange start stop => exact .fst (hedit (pl.deleteRange_yields start stop))
  | deleteSong song => exact pl.deleteSong_evolves song
  | moveRange start stop dst => exact .fst (hedit (pl.moveRange_yields start stop dst))
  | moveId id dst =>
    exact .fst (.branch hnone <| hedit (pl.moveRange_yields _ _ _))
  | shuffle start stop => exact (pl.shuffle_yields start stop).mono fun _ h => h.history
  | setRepeat status => exact (pl.setRepeat_quiet status).mono fun _ h => h.evolves
  | setSingle status => exact (pl.setSingle_quiet status).mono fun _ h => h.evolves
  | setConsume status => exact .ok (Queue.SameSlots.history ⟨rfl, rfl, rfl, rfl⟩)
  | setRandom status => exact (pl.setRandom_quiet status).mono fun _ h => h.evolves
  | stop => exact pl.stop_quiet.mono fun _ h => h.evolves
  | play song => exact hquiet (pl.play_quiet song)
  | playId id => exact hquiet (pl.playId_quiet id)
  | next => exact pl.next_evolves
  | previous => exact pl.previous_quiet.mono fun _ h => h.evolves
  | seekSong song => exact hquiet (pl.seekSong_quiet song)
  | seekSongId id => exact hquiet (pl.seekSongId_quiet id)
  | seekCurrent relative => exact hquiet (pl.seekCurrent_quiet relative)
  | sync => exact pl.sync_evolves
  | tagChanged => exact pl.tagChanged_evolves
  | incrementVersionAll => exact .ok pl.queue.modifyAll_history
  | getCurrentSong => exact .after fun _ => .ok .refl
  | getNextSong => exact .after fun _ => .ok .refl

end Operations

/-! ### Runs of edits -/

inductive Edit (σ : Type)
  | appendSong (song : σ)
  | swapSongs (song₁ song₂ : ℕ)
  | moveRange (start stop : UInt32) (dst : Int32)
  | delete (song : ℕ)
  | deleteRange (start stop : ℕ)
  | shuffle (start stop : ℕ)
  | setPriority (start stop priority : ℕ)

def Edit.op : Edit σ → Op σ
  | appendSong song => .appendSong song
  | swapSongs song₁ song₂ => .swapSongs song₁ song₂
  | moveRange start stop dst => .moveRange start stop dst
  | delete song => .delete song
  | deleteRange start stop => .deleteRange start stop
  | shuffle start stop => .shuffle start stop
  | setPriority start stop priority => .setPriority start stop priority

def Edit.rewrites : Edit σ → Playlist σ → Set ℕ
  | appendSong _, pl => if pl.queue.isFull then ∅ else {pl.queue.length}
  | swapSongs song₁ song₂, pl =>
    if pl.queue.validPosition song₁ && pl.queue.validPosition song₂ then {song₁, song₂} else ∅
  | moveRange start stop dst, pl => pl.movedSlots start.toNat stop.toNat dst.toInt
  | delete song, pl => Set.Ico song (pl.queue.length - 1)
  | deleteRange start stop, pl =>
    deletedSlots start (min stop pl.queue.length - start) pl.queue.length
  | shuffle start stop, pl =>
    if min stop pl.queue.length ≤ unsigned (start + 1) then ∅
    else Set.Ico start (min stop pl.queue.length)
  | setPriority start stop priority, pl =>
    pl.queue.otherPriority start (min stop pl.queue.length) priority

theorem Edit.run_yields [Qsort] [DecidableEq σ] [SongRef σ] (e : Edit σ) (pl : Playlist σ) :
    (e.op.run pl).Yields fun pl' => Queue.Revised (e.rewrites pl) pl.queue pl'.queue := by
  cases e with
  | appendSong song => exact .fst (pl.appendSong_yields song)
  | swapSongs song₁ song₂ => exact .fst (pl.swapSongs_yields song₁ song₂)
  | moveRange start stop dst => exact .fst (pl.moveRange_yields start stop dst)
  | delete song => exact .fst (pl.delete_yields song)
  | deleteRange start stop => exact .fst (pl.deleteRange_yields start stop)
  | shuffle start stop => exact pl.shuffle_yields start stop
  | setPriority start stop priority => exact .fst (pl.setPriority_yields start stop priority)

theorem items_eq_of_edits [Qsort] [DecidableEq σ] [SongRef σ] {p : ℕ}
    (h : Reaches (fun e : Edit σ => e.op.run) (fun e pl => p ∉ e.rewrites pl) pl pl') :
    pl.queue.wraps ≤ pl'.queue.wraps ∧ (pl'.queue.wraps = pl.queue.wraps →
      pl.queue.version ≤ pl'.queue.version ∧ pl'.queue.items p = pl.queue.items p ∧
      (p < pl'.queue.length → p < pl.queue.length)) := by
  induction h with
  | refl => exact ⟨le_rfl, fun _ => ⟨le_rfl, rfl, id⟩⟩
  | @step pl₁ pl₂ e _ hp hrun ih =>
    have h₂ := e.run_yields pl₁ pl₂ hrun
    have hle₂ := h₂.wraps_le
    refine ⟨ih.1.trans hle₂, fun heq => ?_⟩
    obtain ⟨hv, hitems, huse⟩ := ih.2 (by omega)
    obtain ⟨hv₂, -, hkept, huse₂⟩ := h₂.of_wraps_eq (by omega)
    exact ⟨hv.trans hv₂, (hkept p hp).trans hitems,
      fun hlt => huse ((huse₂ p hlt).resolve_right hp)⟩

theorem evolves_of_reaches [Qsort] [DecidableEq σ] [SongRef σ]
    (h : Reaches (Op.run : Op σ → _) (fun _ _ => True) pl pl') : pl.Evolves pl' :=
  h.invariant .refl fun op pl₁ _ h₁ => (op.run_evolves pl₁).mono fun _ h₂ => h₁.trans h₂

/-- **Versions.** Let a client read the version in a state `s` of a run from `playlist_init`. In
every later state `t`, each position whose item is not the one it was is reported as newer, unless
the version number has wrapped since and the client's version has been reached again. If it has
never wrapped, a position that was not rewritten is not reported. -/
theorem changes_reported [Qsort] [DecidableEq σ] [SongRef σ] {maxLength : ℕ}
    {items : ℕ → QueueItem σ} {order : ℕ → ℕ} {rand : Draws} {cur : ℕ} {pc : PlayerControl σ}
    {s : Playlist σ} (hs : Reaches Op.run (fun _ _ => True)
      (init (Queue.init maxLength items order rand cur) pc) s) :
    (∀ t, Reaches Op.run (fun _ _ => True) s t →
      (t.queue.wraps = s.queue.wraps ∨ t.queue.version < s.queue.version) →
      ∀ p < t.queue.length, t.queue.contents[p]? ≠ s.queue.contents[p]? →
        t.queue.songNewer p s.queue.version = true) ∧
    ∀ p t, Reaches (fun e : Edit σ => e.op.run) (fun e pl => p ∉ e.rewrites pl) s t →
      t.queue.wraps = 0 → p < t.queue.length →
        t.queue.songNewer p s.queue.version = false := by
  have hfresh : s.queue.Fresh :=
    (Queue.fresh_init maxLength items order rand cur).history (evolves_of_reaches hs)
  constructor
  · intro t ht hV p hp hne
    refine (evolves_of_reaches ht).songNewer hV hp fun ⟨hp₀, heq⟩ => hne ?_
    rw [Queue.getElem?_contents _ hp, Queue.getElem?_contents _ hp₀, heq]
  · intro p t ht hwraps hp
    obtain ⟨hle, hsame⟩ := items_eq_of_edits ht
    obtain ⟨hv, hitems, huse⟩ := hsame (by omega)
    exact hfresh.not_songNewer (by omega) hv (huse hp) hitems

theorem changes_reported_two_songs : ∃ s t u : Playlist ℕ,
    Reaches Op.run (fun _ _ => True) (numbered .play fun _ => 0) s ∧
    (Op.delete 0).run s = .ok t ∧ (Op.appendSong 12).run s = .ok u ∧
    t.queue.songNewer 0 s.queue.version = true ∧
    u.queue.songNewer 0 s.queue.version = false := by
  obtain ⟨s, hs, hlen, ⟨t, ht, hwraps, hpos, hne⟩, u, hu, hzero, hpos'⟩ :=
    exists_reaches Op.run (fun _ _ => True) (numbered .play fun _ => 0)
      [.appendSong 10, .appendSong 11]
      (P := fun s => s.queue.length = 2 ∧
        (((Op.delete 0).run s).Succeeds fun t => t.queue.wraps = s.queue.wraps ∧
          0 < t.queue.length ∧ t.queue.contents[0]? ≠ s.queue.contents[0]?) ∧
        ((Op.appendSong 12).run s).Succeeds fun u => u.queue.wraps = 0 ∧ 0 < u.queue.length)
      (by decide)
  obtain ⟨hnewer, hkept⟩ := changes_reported hs
  refine ⟨s, t, u, hs, ht, hu, hnewer t (.step .refl trivial ht) (.inl hwraps) 0 hpos hne,
    hkept 0 u (.step .refl (a := .appendSong 12) ?_ hu) hzero hpos'⟩
  show 0 ∉ if s.queue.isFull then ∅ else {s.queue.length}
  split
  · exact notMem_empty 0
  · rw [hlen]
    decide

end Playlist

end Mpd
