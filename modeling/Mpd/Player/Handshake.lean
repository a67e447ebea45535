import Mpd.Player.Control

/-!
# The handshake between the main thread and the player thread

A command is *lost* if the player thread overwrites it with `NONE` without having acknowledged it;
an acknowledgement is lost if the main thread waits for it afterwards. Both can happen
(`exists_command_lost`):

* the main thread sets `command`, releases the mutex and only then sets `error` to `PENDING`; a
  player thread that finishes the command in between acknowledges it too early;
* `player_task` resets `command` after `do_play` has returned, whether or not a command has come
  in. The commands that end `do_play` are not acknowledged by it at all.

In runs in which neither happens, and in which the main thread resets `command` only after it has
been acknowledged, the handshake is sound (`reaches_handshake`).
-/

namespace Mpd

namespace Player

variable {σ : Type}

/-! ### Orderly steps -/

def Step.acknowledges : Step σ → State σ → Bool
  | .task, s => s.command = .pause ∨ s.command = .cancel ∨ s.command = .refresh
  | .handled, _ => true
  | .acknowledgeStart, _ => true
  | .loop release, s =>
    s.command = .queue ∨ (s.command = .cancel ∨ s.command = .refresh) ∧ release = false
  | .sleep release, s =>
    s.command = .queue ∨ (s.command = .cancel ∨ s.command = .refresh) ∧ release = false
  | .processed, _ => true
  | _, _ => false

def Step.timely : Step σ → State σ → Bool
  | .issue _, s => s.player ≠ .ending ∧ s.player ≠ .leaving
  | .finish, s => s.acknowledged
  | .loop _, s => ¬ s.command.Ends ∧ (s.command = .cancel → s.nextSong.isSome)
  | .sleep _, s => ¬ s.command.Ends ∧ (s.command = .cancel → s.nextSong.isSome)
  | .resume, s => ¬ s.command.Ends
  | .stopPlaying, s => s.command = .none
  | .decoderFailed _ _, s => s.player = .playing → s.command = .none
  | _, _ => true

/-- The step neither comes too early nor loses a command. -/
def Step.Orderly (a : Step σ) (s : State σ) : Prop :=
  (a.acknowledges s = true → s.main ≠ .issued) ∧ a.timely s = true
  deriving Decidable

/-! ### What an orderly step preserves -/

def MainPc.Fits (acknowledged : Bool) : MainPc → Prop
  | .idle => acknowledged = true
  | .issued => acknowledged = false
  | .pending => acknowledged = false
  | .waiting false => acknowledged = false
  | .waiting true => True
  | .left => True

def PlayerPc.taken : PlayerPc → Option Command
  | .handling cmd => some cmd
  | .starting cmd => some cmd
  | .startFailed cmd => some cmd
  | .started cmd => some cmd
  | .processing cmd => some cmd
  | _ => none

def PlayerPc.Departs (pc : PlayerPc) : Prop :=
  pc = .ending ∨ pc = .leaving

@[simp]
theorem PlayerPc.taken_signal (pc : PlayerPc) : pc.signal.taken = pc.taken := by
  cases pc <;> rfl

@[simp]
theorem PlayerPc.departs_signal {pc : PlayerPc} : pc.signal.Departs ↔ pc.Departs := by
  cases pc <;> simp [PlayerPc.Departs, PlayerPc.signal]

/-- What the threads agree on: there is a command exactly as long as it has not been acknowledged,
and no error is pending then. -/
structure Agreed (command : Command) (error : PlayerError) (main : MainPc)
    (acknowledged lost : Bool) : Prop where
  command_iff : command = .none ↔ acknowledged = true
  error_ne : acknowledged = true → error ≠ .pending
  main_fits : main.Fits acknowledged
  not_lost : lost = false

namespace State

variable {s : State σ}

def Sound (s : State σ) : Prop :=
  Agreed s.command s.error s.main s.acknowledged s.lost

/-- The player thread executes the command there is, and `do_play` returns only if there is
none. -/
structure Inv (s : State σ) : Prop where
  sound : s.Sound
  taken : ∀ cmd, s.player.taken = some cmd → s.command = cmd ∧ cmd ≠ .none
  departs : s.player.Departs → s.command = .none

theorem inv_init : (init : State σ).Inv where
  sound := ⟨⟨fun _ => rfl, fun _ => rfl⟩, (fun _ h => nomatch h), rfl, rfl⟩
  taken _ h := nomatch h
  departs _ := rfl

theorem Sound.inv (h : s.Sound) (htaken : s.player.taken = none) (hdeparts : ¬ s.player.Departs) :
    s.Inv where
  sound := h
  taken cmd hcmd := by
    rw [htaken] at hcmd
    cases hcmd
  departs hpc := absurd hpc hdeparts

theorem Sound.commandFinished (h : s.Sound) {taken : Command} (htaken : s.command = taken)
    (hmain : s.main ≠ .issued) :
    (s.commandFinished taken).Yields fun s' =>
      s'.Sound ∧ s'.command = .none ∧ s'.player = s.player := by
  refine .branch .error (.ite (fun _ => .error)
    fun hpending => .ok ⟨⟨?_, ?_, ?_, ?_⟩, rfl, rfl⟩)
  · exact ⟨fun _ => rfl, fun _ => rfl⟩
  · intro _
    split
    · exact fun hne => nomatch hne
    · assumption
  · have hfits := h.main_fits
    cases hpc : s.main with
    | idle => rfl
    | issued => exact absurd hpc hmain
    | pending => exact absurd hpc hpending
    | waiting woken => trivial
    | left => trivial
  · rw [h.not_lost, htaken]
    simp

theorem Sound.resetAndWait (h : s.Sound) (hcommand : s.command = .none) : s.resetAndWait.Inv := by
  refine Sound.inv ⟨?_, h.error_ne, h.main_fits, ?_⟩ rfl ?_
  · exact ⟨fun _ => h.command_iff.mp hcommand, fun _ => rfl⟩
  · dsimp only [State.resetAndWait]
    rw [h.not_lost, hcommand]
    rfl
  · rintro (hpc | hpc) <;> cases hpc

theorem Sound.finishTask (h : s.Sound) {taken : Command} (htaken : s.command = taken)
    (hmain : s.main ≠ .issued) : (s.finishTask taken).Yields Inv :=
  (h.commandFinished htaken hmain).bind fun _ hs' =>
    .ok (hs'.1.resetAndWait hs'.2.1)

theorem Sound.finishThen (h : s.Sound) {taken : Command} (htaken : s.command = taken)
    (hmain : s.main ≠ .issued) {pc : PlayerPc} (hpc : pc.taken = none) :
    (do let s ← s.commandFinished taken
        .ok { s with player := pc } : Except Stop (State σ)).Yields Inv := by
  refine (h.commandFinished htaken hmain).bind fun s' hs' => .ok ?_
  refine ⟨hs'.1, fun cmd hcmd => ?_, fun _ => hs'.2.1⟩
  rw [hpc] at hcmd
  cases hcmd

theorem Sound.take (h : s.Sound) {cmd : Command} (hcmd : s.command = cmd) (hne : cmd ≠ .none)
    {pc : PlayerPc} (hpc : pc.taken = some cmd) : { s with player := pc }.Inv where
  sound := h
  taken cmd' hcmd' := by
    rw [hpc] at hcmd'
    cases hcmd'
    exact ⟨hcmd, hne⟩
  departs := by rintro (rfl | rfl) <;> cases hpc

theorem Sound.record (h : s.Sound) (r : Recorded σ) : (s.record r).Sound := by
  cases r with
  | file song => exact ⟨h.command_iff, (fun _ hne => nomatch hne), h.main_fits, h.not_lost⟩
  | audio => exact ⟨h.command_iff, (fun _ hne => nomatch hne), h.main_fits, h.not_lost⟩

theorem Inv.takeNextSong (h : s.Inv) : s.takeNextSong.Yields Inv :=
  .branch .error (.ok ⟨h.sound, h.taken, h.departs⟩)

/-! ### The steps of the main thread -/

theorem Inv.issue (h : s.Inv) (r : Request σ)
    (htime : s.player ≠ .ending ∧ s.player ≠ .leaving) : (s.issue r).Yields Inv := by
  refine .branch .error (.ite (fun _ => .error) fun hcommand => .ok ?_)
  refine ⟨⟨?_, (fun hack => nomatch hack), rfl, h.sound.not_lost⟩, fun cmd hcmd => ?_,
    fun hpc => ?_⟩
  · exact ⟨fun hr => absurd hr r.command_ne_none, fun hack => nomatch hack⟩
  · -- nothing is being executed while there is no command
    obtain ⟨rfl, hne⟩ := h.taken cmd hcmd
    exact absurd (not_not.mp hcommand) hne
  · exact (hpc.elim htime.1 htime.2).elim

theorem Inv.pend (h : s.Inv) : s.pend.Yields Inv := by
  refine Except.yields_guard.mpr fun hmain => ?_
  have hack : s.acknowledged = false := by
    have hfits := h.sound.main_fits
    rwa [hmain] at hfits
  refine ⟨⟨h.sound.command_iff, fun hack' => ?_, hack, h.sound.not_lost⟩, fun cmd hcmd => ?_,
    fun hpc => ?_⟩
  · rw [hack] at hack'
    cases hack'
  · exact h.taken cmd (by rwa [PlayerPc.taken_signal] at hcmd)
  · exact h.departs (PlayerPc.departs_signal.mp hpc)

theorem Inv.check (h : s.Inv) : s.check.Yields Inv := by
  refine Except.yields_guard.mpr fun hmain => ?_
  refine ⟨⟨h.sound.command_iff, h.sound.error_ne, ?_, h.sound.not_lost⟩, h.taken, h.departs⟩
  split
  · next hpending =>
    exact Bool.eq_false_iff.mpr fun hack => h.sound.error_ne hack hpending
  · trivial

theorem Inv.finish (h : s.Inv) (hack : s.acknowledged = true) : s.finish.Yields Inv := by
  refine Except.yields_guard.mpr fun hmain => ?_
  have hcommand : s.command = .none := h.sound.command_iff.mpr hack
  refine ⟨⟨⟨fun _ => hack, fun _ => rfl⟩, h.sound.error_ne, hack, h.sound.not_lost⟩,
    fun cmd hcmd => ?_, fun _ => rfl⟩
  obtain ⟨rfl, hne⟩ := h.taken cmd hcmd
  exact absurd hcommand hne

theorem Inv.wakeMain (h : s.Inv) : { s with main := s.main.signal }.Inv := by
  refine ⟨⟨h.sound.command_iff, h.sound.error_ne, ?_, h.sound.not_lost⟩, h.taken, h.departs⟩
  have hfits := h.sound.main_fits
  cases hpc : s.main with
  | waiting woken => trivial
  | idle => rwa [hpc] at hfits
  | issued => rwa [hpc] at hfits
  | pending => rwa [hpc] at hfits
  | left => trivial

theorem Inv.clear (h : s.Inv) :
    { s with error := .noError, erroredSong := none, recorded := none }.Inv :=
  ⟨⟨h.sound.command_iff, (fun _ hne => nomatch hne), h.sound.main_fits, h.sound.not_lost⟩, h.taken,
    h.departs⟩

/-! ### The steps of the player thread -/

theorem Inv.wakePlayer (h : s.Inv) : { s with player := s.player.signal }.Inv :=
  ⟨h.sound, fun cmd hcmd => h.taken cmd (by rwa [PlayerPc.taken_signal] at hcmd),
    fun hpc => h.departs (PlayerPc.departs_signal.mp hpc)⟩

theorem Inv.task (h : s.Inv) (hack : Step.acknowledges .task s = true → s.main ≠ .issued) :
    s.task.Yields Inv := by
  refine .branch .error ?_
  split
  · next hcmd => exact .ok (h.sound.resetAndWait hcmd)
  · next hcmd =>
    refine .branch .error (.ok ?_)
    exact Sound.take (s := { s with queued := true }) h.sound hcmd (fun hne => nomatch hne) rfl
  · next hcmd =>
    refine .branch .error (.ok ?_)
    exact Sound.take (s := { s with queued := true }) h.sound hcmd (fun hne => nomatch hne) rfl
  · next hcmd =>
    exact Sound.finishTask (s := { s with nextSong := none }) h.sound hcmd
      (hack (by simp [Step.acknowledges, hcmd]))
  · next hcmd =>
    exact Sound.finishTask (s := { s with nextSong := none }) h.sound hcmd
      (hack (by simp [Step.acknowledges, hcmd]))
  · next hcmd => exact h.sound.finishTask hcmd (hack (by simp [Step.acknowledges, hcmd]))
  · next hnone _ _ _ _ _ =>
    exact .ok (h.sound.take rfl hnone rfl)

theorem Inv.handled (h : s.Inv) (hmain : s.main ≠ .issued) : s.handled.Yields Inv := by
  rw [State.handled]
  split
  · next hpc =>
    exact Sound.finishTask (s := { s with nextSong := none }) h.sound
      (h.taken .stop (by rw [hpc]; rfl)).1 hmain
  · next hpc => exact h.sound.finishThen (h.taken .exit (by rw [hpc]; rfl)).1 hmain rfl
  · next cmd _ _ hpc => exact h.sound.finishTask (h.taken cmd (by rw [hpc]; rfl)).1 hmain
  · exact .error

theorem Inv.decoderStarted (h : s.Inv) : s.decoderStarted.Yields Inv := by
  rw [State.decoderStarted]
  split
  · next cmd hpc =>
    obtain ⟨hcmd, hne⟩ := h.taken cmd (by rw [hpc]; rfl)
    exact Inv.takeNextSong (h.sound.take hcmd hne rfl)
  · exact h.takeNextSong
  · exact h.takeNextSong
  · exact .error

theorem Inv.decoderFailed (h : s.Inv) (song : σ) (clear : Bool)
    (htime : s.player = .playing → s.command = .none) :
    (s.decoderFailed song clear).Yields Inv := by
  have hsound : (s.record (.file song)).Sound := h.sound.record _
  have hending : s.player = .playing → { s.record (.file song) with player := .ending }.Inv :=
    fun hpc => ⟨hsound, (fun _ hcmd => nomatch hcmd), fun _ => htime hpc⟩
  rw [State.decoderFailed]
  split
  · next cmd hpc =>
    obtain ⟨hcmd, hne⟩ := h.taken cmd (by rw [show s.player = _ from hpc]; rfl)
    exact Inv.takeNextSong (hsound.take hcmd hne rfl)
  · next hpc =>
    exact .branch ((hending hpc).takeNextSong) (.ok (hending hpc))
  · exact .branch (Inv.takeNextSong ⟨hsound, h.taken, h.departs⟩)
      (.ok ⟨hsound, h.taken, h.departs⟩)
  · exact .error

theorem Inv.outputFailed (h : s.Inv) : s.outputFailed.Yields Inv := by
  have hinv : (s.record .audio).Inv := ⟨h.sound.record _, h.taken, h.departs⟩
  rw [State.outputFailed]
  split
  · exact .ok hinv
  · exact .ok hinv
  · exact .ok hinv
  · exact .error

theorem Inv.acknowledgeStart (h : s.Inv) (hmain : s.main ≠ .issued) :
    s.acknowledgeStart.Yields Inv := by
  rw [State.acknowledgeStart]
  split
  · next cmd hpc => exact h.sound.finishThen (h.taken cmd (by rw [hpc]; rfl)).1 hmain rfl
  · next cmd hpc => exact h.sound.finishThen (h.taken cmd (by rw [hpc]; rfl)).1 hmain rfl
  · exact .error

theorem Sound.processCommand (h : s.Sound) (release : Bool)
    (hack : s.command = .queue ∨ (s.command = .cancel ∨ s.command = .refresh) ∧ release = false →
      s.main ≠ .issued)
    (htime : ¬ s.command.Ends ∧ (s.command = .cancel → s.nextSong.isSome)) :
    (s.processCommand release).Yields Inv := by
  obtain ⟨hends, hcancel⟩ := htime
  rw [State.processCommand]
  split
  · refine .ok (Sound.inv h rfl ?_)
    rintro (hpc | hpc) <;> cases hpc
  · next hcmd =>
    refine .branch .error (.branch .error ?_)
    exact Sound.finishThen (s := { s with queued := true }) h hcmd (hack (.inl hcmd)) rfl
  · next hcmd =>
    refine .ite (fun hnone => ?_) (fun _ => .ite (fun _ => ?_) (fun hrelease => ?_))
    · rw [Option.isNone_iff_eq_none] at hnone
      have hsome := hcancel hcmd
      rw [hnone] at hsome
      cases hsome
    · exact .ok (h.take hcmd (fun hne => nomatch hne) rfl)
    · exact Sound.finishThen (s := { s with nextSong := none, queued := false }) h hcmd
        (hack (.inr ⟨.inl hcmd, Bool.eq_false_iff.mpr hrelease⟩)) rfl
  · next hcmd =>
    refine .ite (fun _ => ?_) (fun hrelease => ?_)
    · exact .ok (h.take hcmd (fun hne => nomatch hne) rfl)
    · exact h.finishThen hcmd (hack (.inr ⟨.inr hcmd, Bool.eq_false_iff.mpr hrelease⟩)) rfl
  · next hcmd =>
    exact .ok (h.take hcmd (fun hne => nomatch hne) rfl)
  · next hcmd =>
    exact .ok (h.take hcmd (fun hne => nomatch hne) rfl)
  · next hcmd =>
    exact .ok (h.take hcmd (fun hne => nomatch hne) rfl)
  · -- the commands that are left end the loop
    exfalso
    apply hends
    cases hcmd : s.command <;> simp_all [Command.Ends]

theorem Inv.processed (h : s.Inv) (hmain : s.main ≠ .issued) : s.processed.Yields Inv := by
  rw [State.processed]
  split
  · next hpc =>
    exact Sound.finishThen (s := { s with nextSong := none, queued := false }) h.sound
      (h.taken .cancel (by rw [hpc]; rfl)).1 hmain rfl
  · next hpc => exact h.sound.finishThen (h.taken .seek (by rw [hpc]; rfl)).1 hmain rfl
  · next cmd _ _ hpc => exact h.sound.finishThen (h.taken cmd (by rw [hpc]; rfl)).1 hmain rfl
  · exact .error

theorem Inv.resume (h : s.Inv) (htime : ¬ s.command.Ends) : s.resume.Yields Inv := by
  refine Except.yields_guard.mpr fun _ => ?_
  rw [if_neg htime]
  refine Sound.inv h.sound rfl ?_
  rintro (hpc | hpc) <;> cases hpc

theorem Inv.stopPlaying (h : s.Inv) (htime : s.command = .none) : s.stopPlaying.Yields Inv :=
  Except.yields_guard.mpr fun _ => ⟨h.sound, (fun _ hcmd => nomatch hcmd), fun _ => htime⟩

theorem Inv.endPlaying (h : s.Inv) : s.endPlaying.Yields Inv := by
  refine .ite (fun _ => .error) (fun hpc => ?_)
  have hcommand : s.command = .none := h.departs (.inl (not_not.mp hpc))
  refine .branch (.branch .error (.ok ?_)) (.ok ?_)
  · exact ⟨h.sound, (fun _ hcmd => nomatch hcmd), fun _ => hcommand⟩
  · exact ⟨h.sound, (fun _ hcmd => nomatch hcmd), fun _ => hcommand⟩

theorem Inv.leave (h : s.Inv) : s.leave.Yields Inv :=
  Except.yields_guard.mpr fun hpc => h.sound.resetAndWait (h.departs (.inr hpc))

end State

theorem Step.run_inv [DecidableEq σ] {a : Step σ} {s : State σ} (h : s.Inv) (ha : a.Orderly s) :
    (a.run s).Yields State.Inv := by
  obtain ⟨hack, htime⟩ := ha
  cases a with
  | issue r => exact h.issue r (of_decide_eq_true htime)
  | pend => exact h.pend
  | check => exact h.check
  | finish => exact h.finish htime
  | wakeMain => exact .ok h.wakeMain
  | clearError => exact Except.yields_guard.mpr fun _ => h.clear
  | songDeleted song =>
    exact .branch .error (.branch (.ok h.clear) (.ok h))
  | wakePlayer => exact .ok h.wakePlayer
  | task => exact h.task hack
  | handled => exact h.handled (hack rfl)
  | decoderStarted => exact h.decoderStarted
  | decoderFailed song clear => exact h.decoderFailed song clear (of_decide_eq_true htime)
  | outputFailed => exact h.outputFailed
  | acknowledgeStart => exact h.acknowledgeStart (hack rfl)
  | loop release =>
    exact .branch (h.sound.processCommand release (fun hcmd => hack (decide_eq_true hcmd))
      (of_decide_eq_true htime)) .error
  | sleep release =>
    refine .branch .error (.branch (.ok ?_)
      (h.sound.processCommand release (fun hcmd => hack (decide_eq_true hcmd))
        (of_decide_eq_true htime)))
    refine State.Sound.inv h.sound rfl ?_
    rintro (hpc | hpc) <;> cases hpc
  | processed => exact h.processed (hack rfl)
  | resume => exact h.resume (of_decide_eq_true htime)
  | stopPlaying => exact h.stopPlaying (of_decide_eq_true htime)
  | endPlaying => exact h.endPlaying
  | leave => exact h.leave

/-- **The handshake** in a run of orderly steps: the player thread has never overwritten a command
that it had not acknowledged, and once it has acknowledged the command, the main thread does not
wait with a pending error, nor without having been woken up. -/
theorem reaches_handshake [DecidableEq σ] {s : State σ}
    (h : Reaches Step.run Step.Orderly State.init s) :
    s.lost = false ∧ (s.acknowledged = true → s.error ≠ .pending ∧ s.main ≠ .waiting false) := by
  have hinv : s.Inv := h.invariant State.inv_init fun _ _ ha hinv => Step.run_inv hinv ha
  refine ⟨hinv.sound.not_lost, fun hack => ⟨hinv.sound.error_ne hack, fun hmain => ?_⟩⟩
  have hfits := hinv.sound.main_fits
  rw [hmain, hack] at hfits
  cases hfits

theorem reaches_handshake_refresh : ∃ s : State ℕ, Reaches Step.run Step.Orderly State.init s ∧
      s.player = .playing ∧ s.main = .idle ∧
      s.lost = false ∧ (s.acknowledged = true → s.error ≠ .pending ∧ s.main ≠ .waiting false) := by
  obtain ⟨s, hs, hplayer, hmain⟩ := exists_reaches Step.run Step.Orderly
    (State.init : State ℕ)
    [.issue (.queue 1), .pend, .check, .task, .decoderStarted, .acknowledgeStart, .check, .finish,
      .issue .refresh, .pend, .check, .loop false, .check, .finish]
    (P := fun s => s.player = .playing ∧ s.main = .idle) (by decide)
  exact ⟨s, hs, hplayer, hmain, reaches_handshake hs⟩

def startPlaying : List (Step ℕ) :=
  [.issue (.queue 1), .pend, .check, .task, .decoderStarted, .acknowledgeStart, .check, .finish]

theorem exists_command_lost :
    (∃ s : State ℕ, Reaches Step.run (fun _ _ => True) State.init s ∧ s.lost = true ∧
      s.acknowledged = false ∧ s.command = .none ∧ s.main = .waiting false) ∧
    ∃ s : State ℕ, Reaches Step.run (fun _ _ => True) State.init s ∧ s.lost = false ∧
      s.acknowledged = true ∧ s.error = .pending ∧ s.main = .waiting false := by
  constructor
  · exact exists_reaches _ _ _ (startPlaying ++
      [.issue .closeAudio, .pend, .check, .loop false, .endPlaying, .leave]) (by decide)
  · exact exists_reaches _ _ _
      (startPlaying ++ [.issue .refresh, .loop false, .pend, .check]) (by decide)

end Player

end Mpd
