import Mpd.Player.Control

/-!
# Recorded errors

An error that the player thread has recorded should be shown by `pc_get_error` and
`pc_get_error_message` until it is cleared (`pc_clear_error`), its song is deleted
(`pc_song_deleted`) or another error is recorded.

The same field also carries the state of a command: `player_command` sets it to `PENDING`, and the
acknowledgement of the command makes that `NOERROR`. So every command hides the error and forgets
it, `pc_get_status` included (`exists_error_forgotten`). As long as no command is given while an
error stands, errors are shown (`reaches_shown`).
-/

namespace Mpd

open Except

namespace Player

variable {σ : Type}

namespace Recorded

def error : Recorded σ → PlayerError
  | .file _ => .file
  | .audio => .audio

def message (uri : σ → Text) : Recorded σ → Text
  | .file song => "problems decoding \"".toList ++ uri song ++ "\"".toList
  | .audio => "problems opening audio device".toList

theorem error_ne_pending (r : Recorded σ) : r.error ≠ .pending := by
  cases r <;> exact fun h => nomatch h

end Recorded

/-- A command does not replace an error that has been recorded. -/
def Step.Spares (a : Step σ) (s : State σ) : Prop :=
  a = .pend → s.recorded = none

instance [DecidableEq σ] (a : Step σ) (s : State σ) : Decidable (a.Spares s) :=
  inferInstanceAs (Decidable (_ → _))

def Shown (error : PlayerError) (erroredSong : Option σ) : Option (Recorded σ) → Prop
  | none => True
  | some (.file song) => error = .file ∧ erroredSong = some song
  | some .audio => error = .audio

namespace State

variable {s : State σ}

def Shows (s : State σ) : Prop :=
  Shown s.error s.erroredSong s.recorded

theorem Shows.getError (h : s.Shows) {r : Recorded σ} (hr : s.recorded = some r) :
    s.getError = r.error := by
  rw [Shows, hr] at h
  cases r with
  | file song => exact h.1
  | audio => exact h

theorem Shows.getErrorMessage (h : s.Shows) {r : Recorded σ} (hr : s.recorded = some r)
    (uri : σ → Text) : s.getErrorMessage uri = .ok (some (r.message uri)) := by
  rw [Shows, hr] at h
  cases r with
  | file song =>
    rw [State.getErrorMessage, h.1, State.erroredSongUri, h.2]
    rfl
  | audio =>
    rw [State.getErrorMessage, show s.error = _ from h]
    rfl

theorem shows_record (s : State σ) (r : Recorded σ) : (s.record r).Shows := by
  cases r with
  | file song => exact ⟨rfl, rfl⟩
  | audio => rfl

theorem Shows.commandFinished (h : s.Shows) (taken : Command) :
    (s.commandFinished taken).Yields Shows := by
  refine .branch .error (.branch .error <| .ok ?_)
  split
  · next hpending =>
    cases hr : s.recorded with
    | none => trivial
    | some r => exact absurd ((h.getError hr).symm.trans hpending) r.error_ne_pending
  · exact h

theorem Shows.finishTask (h : s.Shows) (taken : Command) : (s.finishTask taken).Yields Shows :=
  (h.commandFinished taken).bind fun _ hs' => .ok hs'

theorem Shows.finishThen (h : s.Shows) (taken : Command) (pc : PlayerPc) :
    (do let s ← s.commandFinished taken
        .ok { s with player := pc } : Except Stop (State σ)).Yields Shows :=
  (h.commandFinished taken).bind fun _ hs' => .ok hs'

theorem Shows.takeNextSong (h : s.Shows) : s.takeNextSong.Yields Shows :=
  .branch .error (.ok h)

theorem Shows.task (h : s.Shows) : s.task.Yields Shows := by
  refine .branch .error ?_
  split
  · exact .ok h
  · exact .branch .error (.ok h)
  · exact .branch .error (.ok h)
  · exact Shows.finishTask (s := { s with nextSong := none }) h _
  · exact Shows.finishTask (s := { s with nextSong := none }) h _
  · exact h.finishTask _
  · exact .ok h

theorem Shows.handled (h : s.Shows) : s.handled.Yields Shows := by
  rw [State.handled]
  split
  · exact Shows.finishTask (s := { s with nextSong := none }) h _
  · exact h.finishThen _ _
  · exact h.finishTask _
  · exact .error

theorem Shows.decoderStarted (h : s.Shows) : s.decoderStarted.Yields Shows := by
  rw [State.decoderStarted]
  split
  · exact Shows.takeNextSong h
  · exact h.takeNextSong
  · exact h.takeNextSong
  · exact .error

theorem shows_decoderFailed (s : State σ) (song : σ) (clear : Bool) :
    (s.decoderFailed song clear).Yields Shows := by
  have hshows : (s.record (.file song)).Shows := s.shows_record _
  rw [State.decoderFailed]
  split
  · exact Shows.takeNextSong hshows
  · exact .branch (Shows.takeNextSong hshows) (.ok hshows)
  · exact .branch hshows.takeNextSong (.ok hshows)
  · exact .error

theorem shows_outputFailed (s : State σ) : s.outputFailed.Yields Shows := by
  have hshows : (s.record .audio).Shows := s.shows_record _
  rw [State.outputFailed]
  split
  · exact .ok hshows
  · exact .ok hshows
  · exact .ok hshows
  · exact .error

theorem Shows.acknowledgeStart (h : s.Shows) : s.acknowledgeStart.Yields Shows := by
  rw [State.acknowledgeStart]
  split
  · exact h.finishThen _ _
  · exact h.finishThen _ _
  · exact .error

theorem Shows.processCommand (h : s.Shows) (release : Bool) :
    (s.processCommand release).Yields Shows := by
  rw [State.processCommand]
  split
  · exact .ok h
  · exact .branch .error (.branch .error <| Shows.finishThen (s := { s with queued := true }) h _ _)
  · exact .branch (.ok h) (.branch (.ok h) <|
      Shows.finishThen (s := { s with nextSong := none, queued := false }) h _ _)
  · exact .branch (.ok h) (h.finishThen _ _)
  · exact .ok h
  · exact .ok h
  · exact .ok h
  · exact .ok h

theorem Shows.processed (h : s.Shows) : s.processed.Yields Shows := by
  rw [State.processed]
  split
  · exact Shows.finishThen (s := { s with nextSong := none, queued := false }) h _ _
  · exact h.finishThen _ _
  · exact h.finishThen _ _
  · exact .error

end State

theorem Step.run_shows [DecidableEq σ] {a : Step σ} {s : State σ} (h : s.Shows) (ha : a.Spares s) :
    (a.run s).Yields State.Shows := by
  cases a with
  | issue r =>
    exact .branch .error (.branch .error <| .ok h)
  | pend =>
    refine yields_guard.mpr fun _ => ?_
    rw [ha rfl]
    trivial
  | check => exact yields_guard.mpr fun _ => h
  | finish => exact yields_guard.mpr fun _ => h
  | wakeMain => exact .ok h
  | clearError => exact yields_guard.mpr fun _ => trivial
  | songDeleted song =>
    exact .branch .error (.branch (.ok trivial) (.ok h))
  | wakePlayer => exact .ok h
  | task => exact h.task
  | handled => exact h.handled
  | decoderStarted => exact h.decoderStarted
  | decoderFailed song clear => exact s.shows_decoderFailed song clear
  | outputFailed => exact s.shows_outputFailed
  | acknowledgeStart => exact h.acknowledgeStart
  | loop release => exact .branch (h.processCommand release) .error
  | sleep release =>
    exact .branch .error (.branch (.ok h)
      (h.processCommand release))
  | processed => exact h.processed
  | resume => exact yields_guard.mpr fun _ => h
  | stopPlaying => exact yields_guard.mpr fun _ => h
  | endPlaying =>
    exact .branch .error (.branch (.branch .error (.ok h))
      (.ok h))
  | leave => exact yields_guard.mpr fun _ => h

/-- **Recorded errors are shown** in a run in which no command is given while an error stands:
`pc_get_error` and `pc_get_error_message` show the error recorded last, until it is cleared or its
song is deleted. -/
theorem reaches_shown [DecidableEq σ] (uri : σ → Text) {s : State σ}
    (h : Reaches Step.run Step.Spares State.init s) :
    ∀ r ∈ s.recorded, s.getError = r.error ∧
      s.getErrorMessage uri = .ok (some (r.message uri)) := by
  have hshows : s.Shows := h.invariant trivial fun _ _ ha hshows => Step.run_shows hshows ha
  intro r hr
  exact ⟨hshows.getError hr, hshows.getErrorMessage hr uri⟩

theorem reaches_shown_file : ∃ s : State ℕ, Reaches Step.run Step.Spares State.init s ∧
      s.main = .idle ∧ s.recorded = some (.file 1) ∧
      ∀ r ∈ s.recorded, s.getError = r.error ∧
        s.getErrorMessage (fun _ => "a.ogg".toList) =
          .ok (some (r.message fun _ => "a.ogg".toList)) := by
  obtain ⟨s, hs, hmain, hrecorded⟩ := exists_reaches Step.run Step.Spares
    (State.init : State ℕ)
    [.issue (.queue 1), .pend, .check, .task, .decoderFailed 1 true, .acknowledgeStart, .check,
      .finish] (P := fun s => s.main = .idle ∧ s.recorded = some (.file 1)) (by decide)
  exact ⟨s, hs, hmain, hrecorded, reaches_shown _ hs⟩

theorem exists_error_forgotten : ∃ s : State ℕ, Reaches Step.run (fun _ _ => True) State.init s ∧
      s.main = .idle ∧ s.recorded = some (.file 1) ∧ s.getError = .noError ∧
      ∀ uri, s.getErrorMessage uri = .ok none := by
  obtain ⟨s, hs, hmain, hrecorded, herror⟩ := exists_reaches Step.run (fun _ _ => True)
    (State.init : State ℕ)
    [.issue (.queue 1), .pend, .check, .task, .decoderFailed 1 true, .acknowledgeStart, .check,
      .finish, .leave, .issue .refresh, .pend, .check, .task, .check, .finish]
    (P := fun s => s.main = .idle ∧ s.recorded = some (.file 1) ∧ s.getError = .noError)
    (by decide)
  refine ⟨s, hs, hmain, hrecorded, herror, fun uri => ?_⟩
  rw [State.getErrorMessage, show s.error = _ from herror]

end Player

end Mpd
