import Mpd.Event.Pipe

/-!
# Events from signal handlers

`event_pipe_emit_fast` is `event_pipe_emit` for signal handlers: it sets the flag of the event
without the mutex and always writes a byte. It can interrupt `main_notify_event` while the flags are
being taken, so that here `memcpy` and `memset` of `pipe_events` go flag by flag. An emit that uses
the mutex still waits until the main thread has released it.

* A handler *loses* its event if it sets a flag that `memcpy` has found clear and `memset` has not
  cleared yet (`exists_signal_lost`).
* Otherwise the callback is called before the second run of `main_notify_event` from then on
  returns, and a byte in the pipe makes sure that there is one (`reachable_signal_invoked`).
-/

namespace Mpd

open List Function

namespace EventPipe

namespace Signal

universe u

inductive MainPc
  /-- not in `main_notify_event` -/
  | waiting
  /-- the pipe has been read, and the mutex is not locked yet -/
  | read
  /-- in `memcpy`: the flags of `left` are still to be copied, those of `events` were set -/
  | copying (left events : List PipeEvent)
  /-- in `memset`: the flags of `left` are still to be cleared, those of `events` were set -/
  | clearing (left events : List PipeEvent)
  /-- the callbacks of these events are still to be called -/
  | invoking (events : List PipeEvent)
  deriving DecidableEq, Repr

def MainPc.locked : MainPc → Bool
  | .copying _ _ => true
  | .clearing _ _ => true
  | _ => false

def MainPc.Loses (e : PipeEvent) : MainPc → Prop
  | .copying left events => e ∉ left ∧ e ∉ events
  | .clearing left events => e ∈ left ∧ e ∉ events
  | _ => False

instance (e : PipeEvent) (pc : MainPc) : Decidable (MainPc.Loses e pc) := by
  rcases pc <;> dsimp only [MainPc.Loses] <;> infer_instance

inductive Entry
  | request (e : PipeEvent) (runs : ℕ) (lost : Bool)
  | invoke (e : PipeEvent)
  deriving DecidableEq, Repr

/-- The pipe, and the threads and handlers that use it. -/
structure State (T : Type u) where
  /-- how many bytes the pipe holds at most -/
  capacity : ℕ
  /-- the bytes in the pipe -/
  bytes : ℕ
  /-- `pipe_events` -/
  pipeEvents : PipeEvent → Bool
  main : MainPc
  emitters : T → EmitterPc
  /-- history variable: the runs of `main_notify_event` that have returned -/
  runs : ℕ
  /-- history variable: what has happened, the latest first -/
  log : List Entry

inductive Step (T : Type u)
  /-- `event_pipe_emit`: the section under the mutex -/
  | emit (t : T) (e : PipeEvent)
  /-- `event_pipe_emit_fast`: set the flag -/
  | signal (t : T) (e : PipeEvent)
  /-- either of them: write a byte to the pipe -/
  | write (t : T)
  /-- `main_notify_event`: read from the pipe -/
  | read (bytes : ℕ)
  /-- `main_notify_event`: the next thing to do -/
  | main
  deriving DecidableEq, Repr

section

variable {T : Type u}

namespace State

def init (T : Type u) (capacity : ℕ) : State T where
  capacity := capacity
  bytes := 0
  pipeEvents := fun _ => false
  main := .waiting
  emitters := fun _ => .outside
  runs := 0
  log := []

def advance (s : State T) : State T :=
  match s.main with
  | .waiting => s
  | .read => { s with main := .copying PipeEvent.all [] }
  | .copying (e :: left) events =>
    { s with main := .copying left (if s.pipeEvents e then events ++ [e] else events) }
  | .copying [] events => { s with main := .clearing PipeEvent.all events }
  | .clearing (e :: left) events =>
    { s with
      pipeEvents := update s.pipeEvents e false
      main := .clearing left events }
  | .clearing [] events => { s with main := .invoking events }
  | .invoking (e :: events) => { s with main := .invoking events, log := .invoke e :: s.log }
  | .invoking [] => { s with main := .waiting, runs := s.runs + 1 }

variable [DecidableEq T]

def signal (s : State T) (t : T) (e : PipeEvent) : State T :=
  { s with
    pipeEvents := update s.pipeEvents e true
    emitters := update s.emitters t .writing
    log := .request e s.runs (s.main.Loses e) :: s.log }

def emit (s : State T) (t : T) (e : PipeEvent) : State T :=
  if s.pipeEvents e then { s with log := .request e s.runs false :: s.log }
  else
    { s with
      pipeEvents := update s.pipeEvents e true
      emitters := update s.emitters t .writing
      log := .request e s.runs false :: s.log }

def write (s : State T) (t : T) : State T :=
  { s with
    bytes := if s.bytes < s.capacity then s.bytes + 1 else s.bytes
    emitters := update s.emitters t .outside }

end State

def Step.run [DecidableEq T] : Step T → State T → Except Unit (State T)
  | .emit t e, s =>
    if s.emitters t = .outside ∧ s.main.locked = false then .ok (s.emit t e) else .error ()
  | .signal t e, s => if s.emitters t = .outside then .ok (s.signal t e) else .error ()
  | .write t, s => if s.emitters t = .writing then .ok (s.write t) else .error ()
  | .read bytes, s =>
    if s.main = .waiting ∧ bytes ≤ s.bytes ∧ bytes ≤ bufferSize then
      .ok { s with bytes := s.bytes - bytes, main := .read }
    else .error ()
  | .main, s => if s.main ≠ .waiting then .ok s.advance else .error ()

def Reachable [DecidableEq T] (capacity : ℕ) (s : State T) : Prop :=
  Reaches Step.run (fun _ _ => True) (State.init T capacity) s

/-! ### What becomes of a request -/

namespace Entry

def Requests (e : PipeEvent) (runs : ℕ) : Entry → Prop
  | .request e' runs' lost => e' = e ∧ runs' = runs ∧ lost = false
  | .invoke _ => False

def Invokes (e : PipeEvent) : Entry → Prop
  | .request _ _ _ => False
  | .invoke e' => e' = e

end Entry

namespace MainPc

/-- The callback is still to be called. -/
def Due (e : PipeEvent) (set : Bool) : MainPc → Prop
  | .waiting => set = true
  | .read => set = true
  | .copying left events => e ∈ events ∨ e ∈ left ∧ set = true
  | .clearing left events => e ∈ events ∨ e ∉ left ∧ set = true
  | .invoking events => e ∈ events ∨ set = true

def DueNow (e : PipeEvent) (set : Bool) : MainPc → Prop
  | .waiting => set = true
  | .read => set = true
  | .copying left events => e ∈ events ∨ e ∈ left ∧ set = true
  | .clearing _ events => e ∈ events
  | .invoking events => e ∈ events

def Looks (e : PipeEvent) : MainPc → Prop
  | .waiting => False
  | .read => True
  | .copying _ _ => True
  | .clearing left _ => e ∈ left
  | .invoking _ => False

variable {e : PipeEvent} {set set' : Bool} {pc : MainPc}

theorem DueNow.due (h : pc.DueNow e set) : pc.Due e set := by
  cases pc with
  | waiting => exact h
  | read => exact h
  | copying left events => exact h
  | clearing left events => exact .inl h
  | invoking events => exact .inl h

theorem Due.mono (h : pc.Due e set) (hset : set = true → set' = true) : pc.Due e set' := by
  cases pc with
  | waiting => exact hset h
  | read => exact hset h
  | copying left events => exact h.imp_right (And.imp_right hset)
  | clearing left events => exact h.imp_right (And.imp_right hset)
  | invoking events => exact h.imp_right hset

theorem DueNow.mono (h : pc.DueNow e set) (hset : set = true → set' = true) : pc.DueNow e set' := by
  cases pc with
  | waiting => exact hset h
  | read => exact hset h
  | copying left events => exact h.imp_right (And.imp_right hset)
  | clearing left events => exact h
  | invoking events => exact h

theorem due_of_not_loses (h : ¬ pc.Loses e) : pc.Due e true := by
  cases pc with
  | waiting => rfl
  | read => rfl
  | copying left events =>
    by_cases hleft : e ∈ left
    · exact .inr ⟨hleft, rfl⟩
    · exact .inl (not_not.mp fun hevents => h ⟨hleft, hevents⟩)
  | clearing left events =>
    by_cases hleft : e ∈ left
    · exact .inl (not_not.mp fun hevents => h ⟨hleft, hevents⟩)
    · exact .inr ⟨hleft, rfl⟩
  | invoking events => exact .inr rfl

theorem not_loses_of_not_locked (h : pc.locked = false) : ¬ pc.Loses e := by
  cases pc with
  | waiting => exact id
  | read => exact id
  | copying left events => cases h
  | clearing left events => cases h
  | invoking events => exact id

end MainPc

namespace State

/-- The main thread is going to look at the event. -/
def Awake (s : State T) : Prop :=
  ∀ e, s.pipeEvents e = true →
    0 < s.bytes ∨ (∃ t, s.emitters t = .writing) ∨ s.main.Looks e

/-- A request that is open has been made during this run of `main_notify_event`, or it has been
made before and this run is going to answer it. -/
structure Inv (capacity : ℕ) (s : State T) : Prop where
  capacity_eq : s.capacity = capacity
  awake : s.Awake
  due : ∀ e runs, Unanswered (Entry.Requests e runs) (Entry.Invokes e) s.log →
    runs = s.runs ∧ s.main.Due e (s.pipeEvents e) ∨
      runs + 1 = s.runs ∧ s.main.DueNow e (s.pipeEvents e)

variable {s : State T} {t : T} {e : PipeEvent} {capacity : ℕ}

theorem inv_init : (init T capacity).Inv capacity where
  capacity_eq := rfl
  awake e he := by cases he
  due e runs h := absurd h not_unanswered_nil

theorem Inv.move (h : s.Inv capacity) {pc : MainPc} {flags : PipeEvent → Bool}
    (hawake : { s with main := pc, pipeEvents := flags }.Awake)
    (hdue : ∀ e, s.main.Due e (s.pipeEvents e) → pc.Due e (flags e))
    (hnow : ∀ e, s.main.DueNow e (s.pipeEvents e) → pc.DueNow e (flags e)) :
    { s with main := pc, pipeEvents := flags }.Inv capacity where
  capacity_eq := h.capacity_eq
  awake := hawake
  due e runs hopen := (h.due e runs hopen).imp (And.imp_right (hdue e)) (And.imp_right (hnow e))

theorem Awake.leave (h : s.Awake) {pc : MainPc} (hlooks : ∀ e, s.main.Looks e → pc.Looks e) :
    { s with main := pc }.Awake := by
  intro e he
  exact (h e he).imp_right (Or.imp_right (hlooks e))

theorem Inv.advance (h : s.Inv capacity) : s.advance.Inv capacity := by
  rw [State.advance]
  split
  · exact h
  · next hpc =>
    refine h.move (h.awake.leave fun e _ => trivial) ?_ ?_
    · intro e hdue
      rw [hpc] at hdue
      exact .inr ⟨e.mem_all, hdue⟩
    · intro e hnow
      rw [hpc] at hnow
      exact .inr ⟨e.mem_all, hnow⟩
  · next x left events hpc =>
    -- a flag that is set is noted before it is left behind
    have hcopied : ∀ e, e ∈ events ∨ e ∈ x :: left ∧ s.pipeEvents e = true →
        e ∈ (if s.pipeEvents x then events ++ [x] else events) ∨
          e ∈ left ∧ s.pipeEvents e = true := by
      intro e he
      split
      · next hx =>
        rcases he with he | ⟨he, hset⟩
        · exact .inl (mem_append_left _ he)
        · rcases mem_cons.mp he with rfl | he
          · exact .inl (mem_append_right _ (mem_singleton_self _))
          · exact .inr ⟨he, hset⟩
      · next hx =>
        rcases he with he | ⟨he, hset⟩
        · exact .inl he
        · rcases mem_cons.mp he with rfl | he
          · exact absurd hset hx
          · exact .inr ⟨he, hset⟩
    refine h.move (h.awake.leave fun e _ => trivial) ?_ ?_
    · intro e hdue
      rw [hpc] at hdue
      exact hcopied e hdue
    · intro e hnow
      rw [hpc] at hnow
      exact hcopied e hnow
  · next events hpc =>
    refine h.move (h.awake.leave fun e _ => e.mem_all) ?_ ?_
    · intro e hdue
      rw [hpc] at hdue
      exact .inl (hdue.resolve_right fun he => nomatch he.1)
    · intro e hnow
      rw [hpc] at hnow
      exact hnow.resolve_right fun he => nomatch he.1
  · next x left events hpc =>
    refine h.move ?_ ?_ ?_
    · intro e he
      dsimp only at he ⊢
      rw [update_apply] at he
      split at he
      · cases he
      · next hne =>
        refine (h.awake e he).imp_right (Or.imp_right fun hlooks => ?_)
        rw [hpc] at hlooks
        exact (mem_cons.mp hlooks).resolve_left hne
    · intro e hdue
      rw [hpc] at hdue
      refine hdue.imp_right fun ⟨hleft, hset⟩ => ?_
      rw [mem_cons, not_or] at hleft
      exact ⟨hleft.2, by rw [update_of_ne hleft.1, hset]⟩
    · intro e hnow
      rw [hpc] at hnow
      exact hnow
  · next events hpc =>
    refine h.move (h.awake.leave fun e hlooks => ?_) ?_ ?_
    · rw [hpc] at hlooks
      cases hlooks
    · intro e hdue
      rw [hpc] at hdue
      exact hdue.imp_right And.right
    · intro e hnow
      rw [hpc] at hnow
      exact hnow
  · next x events hpc =>
    refine ⟨h.capacity_eq, h.awake.leave fun e hlooks => ?_, fun e runs hopen => ?_⟩
    · rw [hpc] at hlooks
      cases hlooks
    · -- the request is not for the event whose callback is called here
      rw [unanswered_cons] at hopen
      obtain ⟨hne, hopen⟩ := hopen.resolve_left id
      have hrest : ∀ {P : Prop}, e ∈ x :: events ∨ P → e ∈ events ∨ P := fun hmem =>
        hmem.imp_left fun hmem => (mem_cons.mp hmem).resolve_left (Ne.symm hne)
      have hdue := h.due e runs hopen
      rw [hpc] at hdue
      refine hdue.imp (And.imp_right hrest) (And.imp_right fun hmem => ?_)
      exact (mem_cons.mp hmem).resolve_left (Ne.symm hne)
  · next hpc =>
    refine ⟨h.capacity_eq, h.awake.leave fun e hlooks => ?_, fun e runs hopen => ?_⟩
    · rw [hpc] at hlooks
      cases hlooks
    · have hdue := h.due e runs hopen
      rw [hpc] at hdue
      rcases hdue with ⟨rfl, hdue⟩ | ⟨-, hnow⟩
      · exact .inr ⟨rfl, hdue.resolve_left fun hmem => nomatch hmem⟩
      · cases hnow

variable (h : s.Inv capacity)
include h

theorem Inv.read (hmain : s.main = .waiting) (bytes : ℕ) :
    { s with bytes := bytes, main := .read }.Inv capacity := by
  refine ⟨h.capacity_eq, fun e _ => .inr (.inr trivial), fun e runs hopen => ?_⟩
  have hdue := h.due e runs hopen
  rw [hmain] at hdue
  exact hdue

variable [DecidableEq T]

theorem Inv.request (t : T) (e : PipeEvent) (lost : Bool)
    (hlost : lost = false → ¬ s.main.Loses e) :
    { s with
      pipeEvents := update s.pipeEvents e true
      emitters := update s.emitters t .writing
      log := .request e s.runs lost :: s.log }.Inv capacity := by
  refine ⟨h.capacity_eq, fun e' _ => .inr (.inl ⟨t, update_self ..⟩), fun e' runs hopen => ?_⟩
  have hset : s.pipeEvents e' = true → update s.pipeEvents e true e' = true := by
    intro hset
    rw [update_apply, hset, ite_self]
  rw [unanswered_cons] at hopen
  rcases hopen with ⟨rfl, rfl, hkept⟩ | ⟨-, hopen⟩
  · refine .inl ⟨rfl, ?_⟩
    dsimp only
    rw [update_self]
    exact MainPc.due_of_not_loses (hlost hkept)
  · exact (h.due e' runs hopen).imp (And.imp_right fun hdue => hdue.mono hset)
      (And.imp_right fun hnow => hnow.mono hset)

theorem Inv.emit (hmain : s.main.locked = false) (t : T) (e : PipeEvent) :
    (s.emit t e).Inv capacity := by
  have hkept : ¬ s.main.Loses e := MainPc.not_loses_of_not_locked hmain
  rw [State.emit]
  split
  · next hset =>
    refine ⟨h.capacity_eq, h.awake, fun e' runs hopen => ?_⟩
    rw [unanswered_cons] at hopen
    rcases hopen with ⟨rfl, rfl, -⟩ | ⟨-, hopen⟩
    · refine .inl ⟨rfl, ?_⟩
      rw [hset]
      exact MainPc.due_of_not_loses hkept
    · exact h.due e' runs hopen
  · exact h.request t e false fun _ => hkept

theorem Inv.write (hcapacity : 0 < capacity) (t : T) : (s.write t).Inv capacity := by
  refine ⟨h.capacity_eq, fun e _ => .inl ?_, h.due⟩
  have hcap := h.capacity_eq
  dsimp only [State.write]
  split <;> omega

end State

variable [DecidableEq T]

theorem Step.run_inv {capacity : ℕ} (hcapacity : 0 < capacity) (a : Step T) {s : State T}
    (h : s.Inv capacity) : (a.run s).Yields (State.Inv capacity) := by
  cases a with
  | emit t e => exact Except.yields_guard.mpr fun henabled => h.emit henabled.2 t e
  | signal t e =>
    exact Except.yields_guard.mpr fun _ => h.request t e _ fun hkept => of_decide_eq_false hkept
  | write t => exact Except.yields_guard.mpr fun _ => h.write hcapacity t
  | read bytes => exact Except.yields_guard.mpr fun henabled => h.read henabled.1 _
  | main => exact Except.yields_guard.mpr fun _ => h.advance

/-- **A handler that does not lose its event has its callback called.** In every state that the
threads and handlers can reach: if a flag is set, the main thread is going to look at it; and an
event that has been requested, outside the moments in which it is lost, and not been passed to its
callback since, is going to be, and not more than one run of `main_notify_event` has returned since
then. -/
theorem reachable_signal_invoked {capacity : ℕ} (hcapacity : 0 < capacity) {s : State T}
    (h : Reachable capacity s) :
    s.Awake ∧ ∀ e runs, Unanswered (Entry.Requests e runs) (Entry.Invokes e) s.log →
      s.main.Due e (s.pipeEvents e) ∧ s.runs ≤ runs + 1 := by
  have hinv : s.Inv capacity :=
    h.invariant State.inv_init fun a _ _ hinv => a.run_inv hcapacity hinv
  refine ⟨hinv.awake, fun e runs hopen => ?_⟩
  rcases hinv.due e runs hopen with ⟨rfl, hdue⟩ | ⟨hruns, hnow⟩
  · exact ⟨hdue, Nat.le_succ _⟩
  · exact ⟨hnow.due, by omega⟩

end

theorem reachable_signal_invoked_reload : ∃ s : State Unit, Reachable 1 s ∧
      Entry.request .reload 0 false ∈ s.log ∧
      s.Awake ∧ ∀ e runs, Unanswered (Entry.Requests e runs) (Entry.Invokes e) s.log →
        s.main.Due e (s.pipeEvents e) ∧ s.runs ≤ runs + 1 := by
  obtain ⟨s, hs, hlog⟩ := exists_reaches Step.run (fun _ _ => True)
    (State.init Unit 1) [.emit () .idle, .write (), .read 1, .main, .main, .signal () .reload,
      .main, .write ()] (P := fun s => Entry.request .reload 0 false ∈ s.log) (by decide)
  exact ⟨s, hs, hlog, reachable_signal_invoked Nat.one_pos hs⟩

theorem exists_signal_lost : ∃ s : State Unit, Reachable 1 s ∧
      Entry.request .reload 0 true ∈ s.log ∧ Entry.invoke .reload ∉ s.log ∧ s.runs = 2 ∧
      s.main = .waiting ∧ s.bytes = 0 ∧ s.emitters () = .outside ∧
      ∀ e ∈ PipeEvent.all, s.pipeEvents e = false :=
  exists_reaches _ _ _
    ( -- an idle event wakes the main thread up; it locks the mutex and copies the flags
      [.emit () .idle, .write (), .read 1] ++ replicate 9 .main ++ [.signal () .reload] ++
      -- the flags are cleared, and the idle callback is called
      replicate 12 .main ++ [.write (), .read 1] ++ replicate 20 .main)
    (by decide)

end Signal

end EventPipe

end Mpd
